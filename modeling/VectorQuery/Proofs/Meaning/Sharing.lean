/-
# Evaluation with sharing

`Strategy.sharing` evaluates as `Strategy.direct` does, but keeps the meaning of each subquery under
the key that lowering uses, and takes it from there when the key comes up again.

A memory is `Sound` if each of its entries stems from a query that can be printed, and if a query
that admits conditions below its root may be computed anew wherever its key is known: that yields
the meaning known and leaves the memory as it is.  Lowering relies on it, for it does not share the
one operand of a conjunction that it lowers with conditions below.
-/
import VectorQuery.Proofs.Canonical.Keys
import VectorQuery.Proofs.Meaning.Basic
import VectorQuery.Proofs.Plan.TypeSet

namespace VectorQuery

open Evaluation
open Lowering (admitsPushdown readsSeen sharingKey)

/-- What an evaluation remembers: the types seen, and the meanings of subqueries by their keys. -/
structure Memory where
  seen : TypeSet
  known : List (String × Meaning)

/-- An evaluation with a memory. -/
abbrev Sharing := StateT Memory (Except QueryError)

namespace Memory

/-- The memory of an evaluation that starts. -/
def start : Memory := ⟨.empty, []⟩

/-- The memory with more types seen. -/
def see (m : Memory) (types : TypeSet) : Memory := { m with seen := m.seen.union types }

/-- The meaning that is known for a key. -/
def meaningOf? (m : Memory) (key : String) : Option Meaning := m.known.lookup key

/-- The memory with the meaning of a key. -/
def remember (m : Memory) (key : String) (a : Meaning) : Memory :=
  { m with known := (key, a) :: m.known }

end Memory

/-- The meaning known for the key of a query, or else the one made for it. -/
def reuse (q : Query) (make : Sharing Meaning) : Sharing Meaning := do
  let m ← get
  let key := sharingKey q m.seen
  match m.meaningOf? key with
  | some a => do
    modify fun m => m.see a.types
    pure a
  | none => do
    let a ← make
    modify fun m => m.remember key a
    pure a

/-- A subquery is evaluated once for each key. -/
def Strategy.sharing (relate : Relating) : Strategy Sharing where
  seen := do
    let m ← get
    pure m.seen
  see types := modify fun m => m.see types
  subquery := reuse
  relate := relate

/-! ## Memories that grow -/

namespace Memory

variable {m m' m'' : Memory}

@[simp] theorem seen_see (m : Memory) (types : TypeSet) :
    (m.see types).seen = m.seen.union types := rfl

@[simp] theorem meaningOf?_see (m : Memory) (types : TypeSet) (key : String) :
    (m.see types).meaningOf? key = m.meaningOf? key := rfl

@[simp] theorem seen_remember (m : Memory) (key : String) (a : Meaning) :
    (m.remember key a).seen = m.seen := rfl

theorem meaningOf?_remember (m : Memory) (key key' : String) (a : Meaning) :
    (m.remember key a).meaningOf? key' = if key' = key then some a else m.meaningOf? key' := by
  unfold meaningOf? remember
  rw [List.lookup_cons]
  split
  · rename_i h
    rw [if_pos (beq_iff_eq.1 h)]
  · rename_i h
    rw [if_neg (by simpa using h)]

/-- Nothing is forgotten. -/
structure Within (m m' : Memory) : Prop where
  seen : m.seen.Within m'.seen
  meanings : ∀ key a, m.meaningOf? key = some a → m'.meaningOf? key = some a

theorem Within.refl (m : Memory) : m.Within m := ⟨.refl _, fun _ _ h => h⟩

theorem Within.trans (h : m.Within m') (h' : m'.Within m'') : m.Within m'' :=
  ⟨h.seen.trans h'.seen, fun key a ha => h'.meanings key a (h.meanings key a ha)⟩

theorem within_see (m : Memory) (types : TypeSet) : m.Within (m.see types) :=
  ⟨TypeSet.within_union_left _ _, fun _ _ h => h⟩

theorem see_eq {types : TypeSet} (h : types.Within m.seen) : m.see types = m := by
  rw [see, h.union_eq]

theorem within_remember {key : String} (hkey : m.meaningOf? key = none) (a : Meaning) :
    m.Within (m.remember key a) where
  seen := .refl _
  meanings := by
    intro key' b hb
    rw [meaningOf?_remember]
    split
    · rename_i h
      rw [h, hkey] at hb
      cases hb
    · exact hb

/-- The keys that became known are keys of queries smaller than `n`. -/
def Fresh (n : Nat) (m m' : Memory) : Prop :=
  ∀ key, m.meaningOf? key = none → m'.meaningOf? key ≠ none →
    ∃ q S, q.Printable ∧ sizeOf q < n ∧ key = sharingKey q S

theorem Fresh.of_meanings {n : Nat} (h : m'.meaningOf? = m.meaningOf?) : Fresh n m m' := by
  intro key hnone hknown
  rw [h, hnone] at hknown
  exact absurd rfl hknown

theorem Fresh.trans {n k : Nat} (h : Fresh n m m') (h' : Fresh k m' m'') (hn : n ≤ k) :
    Fresh k m m'' := by
  intro key hnone hknown
  cases hm : m'.meaningOf? key with
  | none => exact h' key hm hknown
  | some a =>
      obtain ⟨q, S, hq, hsize, hkey⟩ := h key hnone (by simp [hm])
      exact ⟨q, S, hq, Nat.lt_of_lt_of_le hsize hn, hkey⟩

theorem Fresh.mono {n k : Nat} (h : Fresh n m m') (hn : n ≤ k) : Fresh k m m' :=
  h.trans (.of_meanings rfl) hn

/-- A query that can be printed is not known by a key of a smaller one. -/
theorem Fresh.meaningOf?_eq_none {q : Query} (hq : q.Printable) {S : TypeSet}
    (h : Fresh (sizeOf q) m m') (hm : m.meaningOf? (sharingKey q S) = none) :
    m'.meaningOf? (sharingKey q S) = none := by
  refine Decidable.byContradiction fun hknown => ?_
  obtain ⟨q', S', hq', hsize, hkey⟩ := h _ hm hknown
  obtain ⟨rfl, -⟩ := Lowering.sharingKey_injective hq hq' hkey
  exact Nat.lt_irrefl _ hsize

end Memory

/-! ## Computing anew -/

/-- Computing anew yields `a` and leaves the memory as it is, from now on and as long as the types
seen, if they are read, have the text that those of `S` have. -/
def Repeats (y : Sharing Meaning) (reads : Prop) (S : TypeSet) (a : Meaning) (m : Memory) : Prop :=
  ∀ m', m.Within m' → (reads → m'.seen.text = S.text) → y m' = .ok (a, m')

theorem Repeats.mono {y : Sharing Meaning} {reads : Prop} {S : TypeSet} {a : Meaning}
    {m m' : Memory} (h : Repeats y reads S a m) (hm : m.Within m') : Repeats y reads S a m' :=
  fun m'' h' => h m'' (hm.trans h')

/-- What repeats after a part of the types was seen repeats after all of them were. -/
theorem Repeats.later {y : Sharing Meaning} {reads reads' : Prop} {S T : TypeSet} {a : Meaning}
    {m : Memory} (h : Repeats y reads T a m) (hreads : reads → reads') (hS : S.Within T)
    (hT : T.Within m.seen) : Repeats y reads' S a m := by
  intro m' hm htext
  refine h m' hm fun hr => ?_
  have htext := htext (hreads hr)
  rw [TypeSet.text_between hS (hT.trans hm.seen) htext.symm, htext]

section

variable (x : Executor) (config : EngineConfig) (relate : Relating)

/-- The computation of a query under the sharing strategy. -/
abbrev computeShared (q : Query) : Sharing Meaning := compute x config (.sharing relate) q

/-- The evaluation of a query under the sharing strategy. -/
abbrev evaluateShared (q : Query) : Sharing Meaning := evaluate x config (.sharing relate) q

/-- A memory as evaluations leave it. -/
structure Memory.Sound (m : Memory) : Prop where
  typed : ∀ n ∈ m.seen.names, x.snapshot.hasType n = true
  entry : ∀ key a, m.meaningOf? key = some a → ∃ q S, q.Printable ∧ key = sharingKey q S ∧
    a.types.Within m.seen ∧
      (admitsPushdown q = true →
        Repeats (computeShared x config relate q) (readsSeen q = true) S a m)

/-- What an evaluation of queries smaller than `n` does to a memory. -/
structure Memory.Step (n : Nat) (m m' : Memory) : Prop where
  sound : m'.Sound x config relate
  within : m.Within m'
  fresh : Memory.Fresh n m m'

end

variable {x : Executor} {config : EngineConfig} {relate : Relating} {m m' m'' : Memory} {n k : Nat}

theorem Memory.sound_start : Memory.start.Sound x config relate where
  typed := nofun
  entry := nofun

theorem Memory.Sound.see (h : m.Sound x config relate) {types : TypeSet}
    (htypes : ∀ n ∈ types.names, x.snapshot.hasType n = true) :
    (m.see types).Sound x config relate where
  typed := by
    intro n hn
    rcases TypeSet.mem_union.1 hn with hn | hn
    · exact h.typed n hn
    · exact htypes n hn
  entry := by
    intro key a ha
    obtain ⟨q, S, hq, hkey, hwithin, hrepeats⟩ := h.entry key a ha
    exact ⟨q, S, hq, hkey, hwithin.trans (TypeSet.within_union_left _ _),
      fun hadmits => (hrepeats hadmits).mono (m.within_see types)⟩

theorem Memory.Step.refl (h : m.Sound x config relate) : m.Step x config relate n m :=
  ⟨h, .refl m, .of_meanings rfl⟩

theorem Memory.Step.trans (h : Memory.Step x config relate n m m')
    (h' : Memory.Step x config relate k m' m'') (hn : n ≤ k) :
    Memory.Step x config relate k m m'' :=
  ⟨h'.sound, h.within.trans h'.within, h.fresh.trans h'.fresh hn⟩

theorem Memory.Step.mono (h : Memory.Step x config relate n m m') (hn : n ≤ k) :
    Memory.Step x config relate k m m' :=
  ⟨h.sound, h.within, h.fresh.mono hn⟩

theorem Memory.Step.see (h : m.Sound x config relate) {types : TypeSet}
    (htypes : ∀ n ∈ types.names, x.snapshot.hasType n = true) :
    Memory.Step x config relate n m (m.see types) :=
  ⟨h.see htypes, m.within_see types, .of_meanings rfl⟩

/-! ## One query -/

theorem key_congr {q : Query} {S T : TypeSet} (h : readsSeen q = true → S.text = T.text) :
    sharingKey q S = sharingKey q T := by
  unfold sharingKey
  split
  · rename_i hr
    rw [h hr]
  · rfl

theorem reuse_of_known {q : Query} {make : Sharing Meaning} {a : Meaning}
    (h : m.meaningOf? (sharingKey q m.seen) = some a) :
    reuse q make m = .ok (a, m.see a.types) := by
  change (match m.meaningOf? (sharingKey q m.seen) with
    | some a => _
    | none => _ : Sharing Meaning) m = _
  rw [h]
  rfl

theorem reuse_of_unknown {q : Query} {make : Sharing Meaning}
    (h : m.meaningOf? (sharingKey q m.seen) = none) :
    reuse q make m = (make m).map fun p => (p.1, p.2.remember (sharingKey q m.seen) p.1) := by
  change (match m.meaningOf? (sharingKey q m.seen) with
    | some a => _
    | none => _ : Sharing Meaning) m = _
  rw [h]
  change (make m >>= fun p => _) = _
  cases make m with
  | error e => rfl
  | ok p => rfl

/-- What the computation of a query leaves behind. -/
def Computes (x : Executor) (config : EngineConfig) (relate : Relating) (q : Query) : Prop :=
  ∀ m a m', m.Sound x config relate → computeShared x config relate q m = .ok (a, m') →
    Memory.Step x config relate (sizeOf q) m m' ∧ a.types.Within m'.seen ∧
      (admitsPushdown q = true →
        Repeats (computeShared x config relate q) (readsSeen q = true) m.seen a m')

/-- What the evaluation of a query leaves behind. -/
def Evaluates (x : Executor) (config : EngineConfig) (relate : Relating) (q : Query) : Prop :=
  ∀ m a m', m.Sound x config relate → evaluateShared x config relate q m = .ok (a, m') →
    Memory.Step x config relate (sizeOf q + 1) m m' ∧ a.types.Within m'.seen ∧
      Repeats (evaluateShared x config relate q) (readsSeen q = true) m.seen a m'

/-- A query whose key is known is not computed. -/
theorem repeats_of_known {q : Query} {S : TypeSet} {a : Meaning}
    (h : m.meaningOf? (sharingKey q S) = some a) (ha : a.types.Within m.seen) :
    Repeats (evaluateShared x config relate q) (readsSeen q = true) S a m := by
  intro m' hm htext
  have hknown : m'.meaningOf? (sharingKey q m'.seen) = some a := by
    rw [key_congr htext]
    exact hm.meanings _ _ h
  have hsee : m'.see a.types = m' := Memory.see_eq (ha.trans hm.seen)
  exact (reuse_of_known hknown).trans (by rw [hsee])

theorem Memory.Sound.remember (h : m.Sound x config relate) {q : Query} (hq : q.Printable)
    {S : TypeSet} {a : Meaning} (hkey : m.meaningOf? (sharingKey q S) = none)
    (ha : a.types.Within m.seen)
    (hrepeats : admitsPushdown q = true →
      Repeats (computeShared x config relate q) (readsSeen q = true) S a m) :
    (m.remember (sharingKey q S) a).Sound x config relate where
  typed := h.typed
  entry := by
    have hwithin := Memory.within_remember hkey a
    intro key b hb
    rw [meaningOf?_remember] at hb
    split at hb
    · rename_i heq
      cases hb
      exact ⟨q, S, hq, heq, ha, fun hadmits => (hrepeats hadmits).mono hwithin⟩
    · obtain ⟨q', S', hq', hkey', ha', hrepeats'⟩ := h.entry key b hb
      exact ⟨q', S', hq', hkey', ha', fun hadmits => (hrepeats' hadmits).mono hwithin⟩

theorem evaluates_of_computes {q : Query} (hq : q.Printable) (h : Computes x config relate q) :
    Evaluates x config relate q := by
  intro m a m' hm heval
  change reuse q (computeShared x config relate q) m = _ at heval
  cases hk : m.meaningOf? (sharingKey q m.seen) with
  | some b =>
      rw [reuse_of_known hk] at heval
      obtain ⟨-, -, -, -, hb, -⟩ := hm.entry _ _ hk
      rw [Memory.see_eq hb] at heval
      cases heval
      exact ⟨.refl hm, hb, repeats_of_known hk hb⟩
  | none =>
      rw [reuse_of_unknown hk] at heval
      obtain ⟨⟨b, m₁⟩, hmake, heq⟩ := ok_of_map heval
      cases heq
      obtain ⟨hstep, hb, hrepeats⟩ := h m b m₁ hm hmake
      have hnone := hstep.fresh.meaningOf?_eq_none hq hk
      have hsound := hstep.sound.remember hq hnone hb hrepeats
      have hwithin := hstep.within.trans (Memory.within_remember hnone b)
      have hfresh : Memory.Fresh (sizeOf q + 1) m (m₁.remember (sharingKey q m.seen) b) := by
        intro key hmiss hhit
        rw [Memory.meaningOf?_remember] at hhit
        split at hhit
        · rename_i hkey
          exact ⟨q, m.seen, hq, Nat.lt_succ_self _, hkey⟩
        · exact hstep.fresh.mono (Nat.le_succ _) key hmiss hhit
      refine ⟨⟨hsound, hwithin, hfresh⟩, hb, repeats_of_known ?_ hb⟩
      rw [Memory.meaningOf?_remember, if_pos rfl]

/-! ## Single shapes -/

theorem hasType_of_checkType {s : Snapshot} {name : String} {u : Unit}
    (h : planned (checkType s name) = .ok u) : s.hasType name = true := by
  unfold checkType at h
  split at h
  · assumption
  · cases h

theorem typed_single {name : String} (h : x.snapshot.hasType name = true) :
    ∀ n ∈ (TypeSet.single name).names, x.snapshot.hasType n = true := by
  intro n hn
  rwa [TypeSet.mem_single.1 hn]

/-- The type of an analogy is the one named, which is known, or the only type of its second
term. -/
theorem analogyType_cases {s : Snapshot} {second : TypeSet} {targetType : Option String}
    {t : String} (h : analogyType s second targetType = .ok t) :
    targetType = some t ∧ s.hasType t = true ∨ targetType = none ∧ second = .single t := by
  unfold analogyType at h
  cases targetType with
  | some name =>
      obtain ⟨u, hcheck, heq⟩ := ok_of_bind h
      cases heq
      exact .inl ⟨rfl, hasType_of_checkType (u := u) (by rw [hcheck]; rfl)⟩
  | none =>
      dsimp only at h
      split at h
      · rename_i hnames
        cases h
        refine .inr ⟨rfl, TypeSet.ext_names fun n => ?_⟩
        rw [hnames, List.mem_singleton, TypeSet.mem_single]
      · cases h

theorem hasType_of_analogyType {second : TypeSet} {targetType : Option String} {t : String}
    (h : analogyType x.snapshot second targetType = .ok t)
    (hsecond : ∀ n ∈ second.names, x.snapshot.hasType n = true) :
    x.snapshot.hasType t = true := by
  rcases analogyType_cases h with ⟨-, ht⟩ | ⟨-, rfl⟩
  · exact ht
  · exact hsecond t (TypeSet.mem_single.2 rfl)

theorem Meaning.types_filterAll (x : Executor) (a : Meaning) (cs : List (Comparison Double)) :
    (a.filterAll x cs).types = a.types := by
  induction cs generalizing a with
  | nil => rfl
  | cons c cs ih => exact ih (a.filter x c)

theorem Meaning.types_foldl {f : Meaning → Meaning → Meaning} {g : TypeSet → TypeSet → TypeSet}
    (hf : ∀ a b, (f a b).types = g a.types b.types) (a : Meaning) (as : List Meaning) :
    (as.foldl f a).types = (as.map Meaning.types).foldl g a.types := by
  rw [List.foldl_map]
  exact (List.foldl_hom Meaning.types fun a b => (hf a b).symm).symm

/-- A combination of meanings that keeps to their types. -/
theorem Meaning.within_foldl {f : Meaning → Meaning → Meaning} {g : TypeSet → TypeSet → TypeSet}
    (hf : ∀ a b, (f a b).types = g a.types b.types)
    (hg : ∀ {s t n}, n ∈ (g s t).names → n ∈ s.names ∨ n ∈ t.names) {a : Meaning}
    {as : List Meaning} {u : TypeSet} (h : ∀ b ∈ a :: as, b.types.Within u) :
    (as.foldl f a).types.Within u := by
  rw [Meaning.types_foldl hf]
  exact TypeSet.within_foldl hg fun t ht => by
    rw [← List.map_cons] at ht
    obtain ⟨b, hb, rfl⟩ := List.mem_map.1 ht
    exact h b hb

theorem computes_lookup (t name : String) (fuzzy : Bool) :
    Computes x config relate (.lookup t name fuzzy) := by
  intro m a m' hm h
  obtain ⟨u, hcheck, hrest⟩ := run_of_lift_bind h
  cases hrest
  exact ⟨.see hm (typed_single (hasType_of_checkType hcheck)), TypeSet.within_union_right _ _, nofun⟩

theorem computes_comparison (c : Comparison Double) : Computes x config relate (.comparison c) := by
  intro m a m' hm h
  obtain ⟨u, -, hrest⟩ := run_of_lift_bind h
  cases hrest
  exact ⟨.refl hm, .refl _, nofun⟩

theorem computes_optimize (direction : Direction) (objective : Objective Double)
    (constraints : List (Comparison Double)) :
    Computes x config relate (.optimize direction objective constraints) := by
  intro m a m' hm h
  obtain ⟨u, -, hrest⟩ := run_of_lift_bind h
  obtain ⟨u', -, hrest'⟩ := run_of_lift_bind hrest
  cases hrest'
  exact ⟨.refl hm, .refl _, nofun⟩

theorem sizeOf_lt_not (q : Query) : sizeOf q + 1 ≤ sizeOf (Query.logical .not [q]) := by
  simp only [Query.logical.sizeOf_spec, List.cons.sizeOf_spec]
  omega

theorem computes_negation {q : Query} (hq : Evaluates x config relate q) :
    Computes x config relate (.logical .not [q]) := by
  intro m a m' hm h
  obtain ⟨b, m₁, hb, hrest⟩ := run_of_bind h
  cases hrest
  obtain ⟨hstep, -, -⟩ := hq m b m' hm hb
  exact ⟨hstep.mono (sizeOf_lt_not q), .refl _, nofun⟩

theorem computes_relation {l r : Query} (name : Option String) (hl : Evaluates x config relate l)
    (hr : Evaluates x config relate r) : Computes x config relate (.relation l name r) := by
  intro m a m' hm h
  obtain ⟨b, m₁, hb, hrest⟩ := run_of_bind h
  obtain ⟨c, m₂, hc, hrest⟩ := run_of_bind hrest
  obtain ⟨bindings, hbindings, hrest⟩ := run_of_lift_bind hrest
  obtain ⟨set, hset, hrest⟩ := run_of_lift_bind hrest
  cases hrest
  obtain ⟨hstep, hb', hrepeats⟩ := hl m b m₁ hm hb
  obtain ⟨hstep', -, hrepeats'⟩ := hr m₁ c m' hstep.sound hc
  have hsize : sizeOf l + 1 ≤ sizeOf (Query.relation l name r) ∧
      sizeOf r + 1 ≤ sizeOf (Query.relation l name r) := by
    simp only [Query.relation.sizeOf_spec]
    omega
  refine ⟨(hstep.mono hsize.1).trans (hstep'.mono hsize.2) (Nat.le_refl _),
    hb'.trans hstep'.within.seen, fun _ => ?_⟩
  have hleft : Repeats _ (readsSeen (.relation l name r) = true) m.seen b m' :=
    (hrepeats.mono hstep'.within).later (fun h => by simp [readsSeen, h]) (.refl _)
      (hstep.within.seen.trans hstep'.within.seen)
  have hright : Repeats _ (readsSeen (.relation l name r) = true) m.seen c m' :=
    hrepeats'.later (fun h => by simp [readsSeen, h]) hstep.within.seen hstep'.within.seen
  intro m'' hm'' htext
  refine (bind_run (hleft m'' hm'' htext)).trans ?_
  refine (bind_run (hright m'' hm'' htext)).trans ?_
  refine (bind_run (lift_run hbindings)).trans ?_
  exact bind_run (lift_run hset)

theorem run_searchedTypes {b : Meaning} {targetType : Option String} {types : TypeSet}
    (hm : m.Sound x config relate) (hb : b.types.Within m.seen)
    (h : searchedTypes x (.sharing relate) b targetType m = .ok (types, m')) :
    Memory.Step x config relate n m m' ∧ types.Within m'.seen ∧
      ∀ m'', m'.Within m'' →
        searchedTypes x (.sharing relate) b targetType m'' = .ok (types, m'') := by
  cases targetType with
  | none =>
      cases h
      exact ⟨.refl hm, hb, fun _ _ => rfl⟩
  | some t =>
      obtain ⟨u, hcheck, hrest⟩ := run_of_lift_bind h
      cases hrest
      have hsingle := TypeSet.within_union_right m.seen (.single t)
      refine ⟨.see hm (typed_single (hasType_of_checkType hcheck)), hsingle, ?_⟩
      intro m'' hm''
      refine (bind_run (lift_run hcheck)).trans ?_
      have hsee := Memory.see_eq (hsingle.trans hm''.seen)
      change Except.ok (TypeSet.single t, m''.see (.single t)) = _
      rw [hsee]

theorem computes_similar {t : Query} (distance : Option Double) (topK : Option Nat)
    (targetType : Option String) (ht : Evaluates x config relate t) :
    Computes x config relate (.similar t distance topK targetType) := by
  intro m a m' hm h
  obtain ⟨b, m₁, hb, hrest⟩ := run_of_bind h
  obtain ⟨types, m₂, htypes, hrest⟩ := run_of_bind hrest
  obtain ⟨u, hdistance, hrest⟩ := run_of_lift_bind hrest
  obtain ⟨found, hfound, hrest⟩ := run_of_lift_bind hrest
  cases hrest
  obtain ⟨hstep, hb', hrepeats⟩ := ht m b m₁ hm hb
  obtain ⟨hstep', hwithin, hagain⟩ :=
    run_searchedTypes (n := sizeOf t + 1) hstep.sound hb' htypes
  have hsize : sizeOf t + 1 ≤ sizeOf (Query.similar t distance topK targetType) := by
    simp only [Query.similar.sizeOf_spec]
    omega
  refine ⟨(hstep.trans hstep' (Nat.le_refl _)).mono hsize, hwithin, fun _ => ?_⟩
  have htarget := hrepeats.mono hstep'.within
  intro m'' hm'' htext
  refine (bind_run (htarget m'' hm'' htext)).trans ?_
  refine (bind_run (hagain m'' hm'')).trans ?_
  refine (bind_run (lift_run hdistance)).trans ?_
  exact bind_run (lift_run hfound)

theorem computes_analogy {a b c : Query} (targetType : Option String)
    (ha : Evaluates x config relate a) (hb : Evaluates x config relate b)
    (hc : Evaluates x config relate c) : Computes x config relate (.analogy a b c targetType) := by
  intro m v m' hm h
  obtain ⟨va, m₁, hva, hrest⟩ := run_of_bind h
  obtain ⟨vb, m₂, hvb, hrest⟩ := run_of_bind hrest
  obtain ⟨vc, m₃, hvc, hrest⟩ := run_of_bind hrest
  obtain ⟨t, ht, hrest⟩ := run_of_lift_bind hrest
  obtain ⟨u, m₄, hsee, hrest⟩ := run_of_bind hrest
  obtain ⟨found, -, hrest⟩ := run_of_lift_bind hrest
  cases hsee
  cases hrest
  obtain ⟨hstep₁, -, -⟩ := ha m va m₁ hm hva
  obtain ⟨hstep₂, hvb', -⟩ := hb m₁ vb m₂ hstep₁.sound hvb
  obtain ⟨hstep₃, -, -⟩ := hc m₂ vc m₃ hstep₂.sound hvc
  have htyped := hasType_of_analogyType (ok_of_mapError ht)
    fun n hn => hstep₂.sound.typed n (hvb' n hn)
  have hsize : sizeOf a + 1 ≤ sizeOf (Query.analogy a b c targetType) ∧
      sizeOf b + 1 ≤ sizeOf (Query.analogy a b c targetType) ∧
      sizeOf c + 1 ≤ sizeOf (Query.analogy a b c targetType) := by
    simp only [Query.analogy.sizeOf_spec]
    omega
  have hstep := ((hstep₁.mono hsize.1).trans (hstep₂.mono hsize.2.1) (Nat.le_refl _)).trans
    (hstep₃.mono hsize.2.2) (Nat.le_refl _)
  exact ⟨hstep.trans (.see hstep.sound (typed_single htyped)) (Nat.le_refl _),
    TypeSet.within_union_right _ _, nofun⟩

/-! ## Operands -/

theorem run_computeAll {qs : List Query} (hqs : ∀ q ∈ qs, Evaluates x config relate q)
    (hn : ∀ q ∈ qs, sizeOf q < n) {as : List Meaning} (hm : m.Sound x config relate)
    (h : computeAll x config (.sharing relate) qs m = .ok (as, m')) :
    Memory.Step x config relate n m m' ∧ ∀ a ∈ as, a.types.Within m'.seen := by
  induction qs generalizing m as with
  | nil =>
      cases h
      exact ⟨.refl hm, nofun⟩
  | cons q qs ih =>
      obtain ⟨a, m₁, ha, hrest⟩ := run_of_bind h
      obtain ⟨as', m₂, has, hrest⟩ := run_of_bind hrest
      cases hrest
      obtain ⟨hstep, hwithin, -⟩ := hqs q (by simp) m a m₁ hm ha
      obtain ⟨hstep', hall⟩ := ih (fun p hp => hqs p (by simp [hp])) (fun p hp => hn p (by simp [hp]))
        hstep.sound has
      exact ⟨(hstep.mono (hn q (by simp))).trans hstep' (Nat.le_refl _),
        List.forall_mem_cons.2 ⟨hwithin.trans hstep'.within.seen, hall⟩⟩

theorem run_computeOthers {qs : List Query} (hqs : ∀ q ∈ qs, Evaluates x config relate q)
    (hn : ∀ q ∈ qs, sizeOf q < n) {as : List Meaning} (hm : m.Sound x config relate)
    (h : computeOthers x config (.sharing relate) qs m = .ok (as, m')) :
    Memory.Step x config relate n m m' ∧ ∀ a ∈ as, a.types.Within m'.seen := by
  induction qs generalizing m as with
  | nil =>
      cases h
      exact ⟨.refl hm, nofun⟩
  | cons q qs ih =>
      have hqs' : ∀ p ∈ qs, Evaluates x config relate p := fun p hp => hqs p (by simp [hp])
      have hn' : ∀ p ∈ qs, sizeOf p < n := fun p hp => hn p (by simp [hp])
      rw [computeOthers] at h
      split at h
      · exact ih hqs' hn' hm h
      · obtain ⟨a, m₁, ha, hrest⟩ := run_of_bind h
        obtain ⟨as', m₂, has, hrest⟩ := run_of_bind hrest
        cases hrest
        obtain ⟨hstep, hwithin, -⟩ := hqs q (by simp) m a m₁ hm ha
        obtain ⟨hstep', hall⟩ := ih hqs' hn' hstep.sound has
        exact ⟨(hstep.mono (hn q (by simp))).trans hstep' (Nat.le_refl _),
          List.forall_mem_cons.2 ⟨hwithin.trans hstep'.within.seen, hall⟩⟩

theorem sizeOf_lt_logical {op : Connective} {qs : List Query} :
    ∀ q ∈ qs, sizeOf q < sizeOf (Query.logical op qs) := by
  intro q hq
  have := List.sizeOf_lt_of_mem hq
  simp only [Query.logical.sizeOf_spec]
  omega

theorem computes_conjunction {qs : List Query} (hqs : ∀ q ∈ qs, Evaluates x config relate q) :
    Computes x config relate (.logical .and qs) := by
  intro m a m' hm h
  obtain ⟨u, -, hrest⟩ := run_of_lift_bind h
  obtain ⟨as, m₁, has, hrest⟩ := run_of_bind hrest
  obtain ⟨hstep, hwithin⟩ := run_computeOthers hqs sizeOf_lt_logical hm has
  cases as with
  | nil =>
      cases hrest
      refine ⟨hstep, ?_, nofun⟩
      rw [Meaning.types_filterAll]
      exact .refl _
  | cons b bs =>
      cases hrest
      refine ⟨hstep, ?_, nofun⟩
      rw [Meaning.types_filterAll]
      exact Meaning.within_foldl (fun _ _ => rfl) TypeSet.mem_of_mem_both hwithin

theorem computes_disjunction {qs : List Query} (hqs : ∀ q ∈ qs, Evaluates x config relate q) :
    Computes x config relate (.logical .or qs) := by
  intro m a m' hm h
  obtain ⟨as, m₁, has, hrest⟩ := run_of_bind h
  obtain ⟨hstep, hwithin⟩ := run_computeAll hqs sizeOf_lt_logical hm has
  cases as with
  | nil => cases hrest
  | cons b bs =>
      cases hrest
      refine ⟨hstep, ?_, nofun⟩
      exact Meaning.within_foldl (fun _ _ => rfl) TypeSet.mem_of_mem_either hwithin

/-- What is computed keeps memories sound, and repeats. -/
theorem computes {q : Query} (hq : q.Printable) : Computes x config relate q := by
  induction hq with
  | lookup name fuzzy => exact computes_lookup _ name fuzzy
  | @relation l r name hl _ hr ihl ihr =>
      exact computes_relation name (evaluates_of_computes hl ihl) (evaluates_of_computes hr ihr)
  | not hq ih => exact computes_negation (evaluates_of_computes hq ih)
  | @logical op qs hop _ hqs ih =>
      have hqs' : ∀ q ∈ qs, Evaluates x config relate q :=
        fun q hq => evaluates_of_computes (hqs q hq) (ih q hq)
      cases op with
      | and => exact computes_conjunction hqs'
      | or => exact computes_disjunction hqs'
      | not => exact absurd rfl hop
  | comparison => exact computes_comparison _
  | similar targetType ht _ _ ih =>
      exact computes_similar _ _ targetType (evaluates_of_computes ht ih)
  | analogy ha hb hc _ iha ihb ihc =>
      exact computes_analogy _ (evaluates_of_computes ha iha) (evaluates_of_computes hb ihb)
        (evaluates_of_computes hc ihc)
  | optimize direction => exact computes_optimize direction _ _

/-- Evaluations keep memories sound, and repeat. -/
theorem evaluates {q : Query} (hq : q.Printable) : Evaluates x config relate q :=
  evaluates_of_computes hq (computes hq)

end VectorQuery
