/-
# Snapshots read back from their files

What a writer puts is taken off again by its reader, whatever follows (`Reads`): there is one lemma
for each kind of thing in a file.  A snapshot then passes every check a second time, since building
from its own entities and relations gives the same snapshot, whose checksums are those recorded.  A
file that is cut short has not the length that it says, or no room for saying it.
-/
import VectorQuery.Proofs.Bytes
import VectorQuery.Proofs.Instant.Stamp
import VectorQuery.Proofs.Store.Loading
import VectorQuery.Store.File

namespace VectorQuery.SnapshotFile

/-! ## Readers -/

/-- The reader takes the bytes of `a` off the front, if their number fits in a length of the
file. -/
def Reads {α : Type} (get : Reader α) (bytes : Bytes) (a : α) : Prop :=
  bytes.length < 2 ^ 64 → ∀ rest, get (bytes ++ rest) = some (a, rest)

theorem take_append {n : Nat} {bs : Bytes} (h : bs.length = n) (rest : Bytes) :
    take n (bs ++ rest) = some (bs, rest) := by
  rw [take, if_neg (by rw [List.length_append]; omega), List.take_left' h, List.drop_left' h]

theorem getNat_append (width : Nat) {n : Nat} (h : n < 256 ^ width) (rest : Bytes) :
    getNat width (Bytes.ofNat width n ++ rest) = some (n, rest) := by
  simp only [getNat, take_append (Bytes.length_ofNat width n), Option.map_some,
    Bytes.toNat_ofNat_of_lt h]

section Lists

variable {α : Type} {get : Reader α} {put : α → Bytes} {as : List α}

theorem getItems_flatMap (h : ∀ a ∈ as, Reads get (put a) a)
    (hlength : (as.flatMap put).length < 2 ^ 64) (rest : Bytes) :
    getItems get as.length (as.flatMap put ++ rest) = some (as, rest) := by
  induction as with
  | nil => rfl
  | cons a as ih =>
      rw [List.flatMap_cons, List.length_append] at hlength
      have hhead := h a List.mem_cons_self (by omega) (as.flatMap put ++ rest)
      have htail := ih (fun b hb => h b (List.mem_cons_of_mem a hb)) (by omega)
      simp only [List.length_cons, List.flatMap_cons, List.append_assoc, getItems, hhead, htail,
        bind, Option.bind_some]

/-- Items that take a byte each are no more than the bytes they take. -/
theorem length_le_flatMap (h : ∀ a ∈ as, put a ≠ []) : as.length ≤ (as.flatMap put).length := by
  induction as with
  | nil => exact Nat.le_refl 0
  | cons a as ih =>
      have hhead := List.length_pos_of_ne_nil (h a List.mem_cons_self)
      have htail := ih fun b hb => h b (List.mem_cons_of_mem a hb)
      rw [List.flatMap_cons, List.length_append, List.length_cons]
      omega

theorem reads_list (h : ∀ a ∈ as, Reads get (put a) a) (hne : ∀ a ∈ as, put a ≠ []) :
    Reads (getList get) (putList put as) as := by
  intro hlength rest
  rw [putList, List.length_append, Bytes.length_ofNat] at hlength
  have hcount := length_le_flatMap hne
  have hnat := getNat_append 8 (n := as.length) (by omega) (as.flatMap put ++ rest)
  have hroom : ¬(as.flatMap put ++ rest).length < as.length := by
    rw [List.length_append]
    omega
  simp only [getList, putList, List.append_assoc, hnat, bind, Option.bind_some, hroom, if_false,
    getItems_flatMap h (by omega)]

end Lists

theorem reads_text (s : String) : Reads getText (putText s) s := by
  intro hlength rest
  rw [putText, List.length_append, Bytes.length_ofNat] at hlength
  have hnat := getNat_append 8 (n := (Bytes.ofText s).length) (by omega)
    (Bytes.ofText s ++ rest)
  simp only [getText, putText, List.append_assoc, hnat, take_append, Bytes.text?_ofText, bind,
    Option.bind_some]

theorem reads_single (x : Single) : Reads getSingle (Bytes.ofSingle x) x := by
  intro _ rest
  simp only [getSingle, Bytes.ofSingle, getNat_append 4 x.bits.toNat_lt,
    Option.map_some, UInt32.ofNat_toNat]

theorem reads_double (x : Double) : Reads getDouble (Bytes.ofDouble x) x := by
  intro _ rest
  simp only [getDouble, Bytes.ofDouble, getNat_append 8 x.bits.toNat_lt,
    Option.map_some, UInt64.ofNat_toNat]

theorem reads_embedding (v : Embedding) : Reads (getList getSingle) (putList Bytes.ofSingle v) v :=
  reads_list (fun x _ => reads_single x) fun x _ =>
    List.ne_nil_of_length_pos (by rw [Bytes.length_ofSingle]; decide)

theorem putText_ne_nil (s : String) : putText s ≠ [] :=
  List.append_ne_nil_of_left_ne_nil
    (List.ne_nil_of_length_pos (by rw [Bytes.length_ofNat]; decide)) _

theorem reads_scalar (v : Scalar Double) : Reads getScalar (putScalar v) v := by
  intro hlength rest
  have htag {n : Nat} (hn : n < 256 ^ 4) (bs : Bytes) := getNat_append 4 hn bs
  cases v with
  | bool b =>
      simp only [getScalar, putScalar, List.append_assoc, htag (n := 0) (by decide), bind,
        Option.bind_some]
      cases b <;> rfl
  | number x =>
      have hread := reads_double x (by rw [Bytes.length_ofDouble]; decide) rest
      simp only [getScalar, putScalar, List.append_assoc, htag (n := 1) (by decide), hread, bind,
        Option.bind_some]
  | text s =>
      rw [putScalar, List.length_append, Bytes.length_ofNat] at hlength
      have hread := reads_text s (by omega) rest
      simp only [getScalar, putScalar, List.append_assoc, htag (n := 2) (by decide), hread, bind,
        Option.bind_some]

theorem reads_field (e : String × Scalar Double) :
    Reads getField (putText e.1 ++ putScalar e.2) e := by
  intro hlength rest
  rw [List.length_append] at hlength
  have hname := reads_text e.1 (by omega) (putScalar e.2 ++ rest)
  have hvalue := reads_scalar e.2 (by omega) rest
  simp only [getField, List.append_assoc, hname, hvalue, bind, Option.bind_some]

theorem reads_entity (e : Entity Double) : Reads getEntity (putEntity e) e := by
  intro hlength rest
  simp only [putEntity, List.length_append] at hlength
  have hne : ∀ f ∈ e.metadata.entries, putText f.1 ++ putScalar f.2 ≠ [] := fun f _ =>
    List.append_ne_nil_of_left_ne_nil (putText_ne_nil f.1) _
  have hfields := reads_list (fun f _ => reads_field f) hne
  simp only [getEntity, putEntity, List.append_assoc, bind, Option.bind_some,
    reads_text e.entityType (by omega), reads_text e.id (by omega),
    reads_text e.displayName (by omega), reads_embedding e.dense (by omega),
    reads_embedding e.symbolic (by omega), hfields (by omega), OrderedMap.ofList_entries]

theorem reads_operator (op : Operator) : Reads getOperator (putOperator op) op := by
  intro hlength rest
  cases op with
  | offset v =>
      rw [putOperator, List.length_append, Bytes.length_ofNat] at hlength
      have htag := getNat_append 4 (n := 0) (by decide)
        (putList Bytes.ofSingle v ++ rest)
      simp only [getOperator, putOperator, List.append_assoc, htag,
        reads_embedding v (by omega), bind, Option.bind_some]
  | composition v =>
      rw [putOperator, List.length_append, Bytes.length_ofNat] at hlength
      have htag := getNat_append 4 (n := 1) (by decide)
        (putList Bytes.ofSingle v ++ rest)
      simp only [getOperator, putOperator, List.append_assoc, htag,
        reads_embedding v (by omega), bind, Option.bind_some]

theorem reads_relation (r : Relation) : Reads getRelation (putRelation r) r := by
  intro hlength rest
  simp only [putRelation, List.length_append] at hlength
  simp only [getRelation, putRelation, List.append_assoc, bind, Option.bind_some,
    reads_text r.key.sourceType (by omega), reads_text r.key.relation (by omega),
    reads_text r.key.targetType (by omega), reads_operator r.operator (by omega)]

/-! ## Bodies -/

theorem length_digest (message : Bytes) : (Sha256.digest message).length = 32 := by
  simp only [Sha256.digest, Sha256.wordBytes, List.flatMap_cons, List.flatMap_nil,
    List.length_append, List.length_reverse, Bytes.length_ofNat, List.length_nil]

theorem reads_checksums {sums : List Bytes} (h : ∀ sum ∈ sums, sum.length = 32) :
    Reads (getList (take 32)) (putList id sums) sums :=
  reads_list (fun sum hsum _ rest => take_append (h sum hsum) rest) fun sum hsum =>
    List.ne_nil_of_length_pos (by rw [id, h sum hsum]; decide)

/-- The body of a snapshot's file holds what the snapshot is built from. -/
theorem getBody_body {s : Snapshot} (hgeneration : s.generation < 2 ^ 64)
    (hcreated : s.created.Valid) (hsums : ∀ sum ∈ s.checksums, sum.length = 32)
    (hlength : (body s.created.stamp s).length < 2 ^ 64) :
    getBody (body s.created.stamp s) =
      some ⟨s.generation, s.created, s.entities.toList, s.relationList, s.checksums⟩ := by
  simp only [body, List.length_append, Bytes.length_ofNat] at hlength
  have hentity : ∀ e ∈ s.entities.toList, putEntity e ≠ [] := fun e _ => by
    simp only [putEntity, List.append_assoc]
    exact List.append_ne_nil_of_left_ne_nil (putText_ne_nil e.entityType) _
  have hentities := reads_list (fun e _ => reads_entity e) hentity
  have hrelation : ∀ r ∈ s.relationList, putRelation r ≠ [] := fun r _ => by
    simp only [putRelation, List.append_assoc]
    exact List.append_ne_nil_of_left_ne_nil (putText_ne_nil r.key.sourceType) _
  have hrelations := reads_list (fun r _ => reads_relation r) hrelation
  have hchecksums := reads_checksums hsums (by omega) []
  rw [List.append_nil] at hchecksums
  simp only [getBody, body, List.append_assoc, getNat_append 8 hgeneration,
    reads_text s.created.stamp (by omega), Instant.ofText?_stamp hcreated, hentities (by omega),
    hrelations (by omega), hchecksums, bind, Option.bind_some]

/-! ## Frames -/

theorem length_frame (b : Bytes) : (frame b).length = 16 + b.length := by
  simp only [frame, magic, List.length_append, Bytes.length_ofNat, List.length_cons,
    List.length_nil]

theorem take_magic_frame (b : Bytes) : (frame b).take 4 = magic := rfl

theorem take_version_frame (b : Bytes) : ((frame b).drop 4).take 4 = Bytes.ofNat 4 version := rfl

theorem take_length_frame (b : Bytes) : ((frame b).drop 8).take 8 = Bytes.ofNat 8 b.length := rfl

theorem drop_frame (b : Bytes) : (frame b).drop 16 = b := rfl

theorem unframe_frame {b : Bytes} (h : b.length < 2 ^ 64) : unframe (frame b) = .ok b := by
  have hlength : Bytes.toNat (Bytes.ofNat 8 b.length) = b.length := Bytes.toNat_ofNat_of_lt h
  have hversion : Bytes.toNat (Bytes.ofNat 4 version) = version := rfl
  simp only [unframe, length_frame, take_magic_frame, take_version_frame, take_length_frame,
    drop_frame, hversion, hlength]
  rw [if_neg (not_or.2 ⟨by omega, fun hne => hne rfl⟩), if_neg fun hne => hne rfl,
    if_neg (by omega), if_neg (Nat.lt_irrefl _), List.take_length]

/-- A proper prefix of a file is too short for a header, or for the body that its header says. -/
theorem unframe_prefix {b p : Bytes} (h : b.length < 2 ^ 64) (hcut : p <+: frame b)
    (hne : p ≠ frame b) :
    unframe p = .error .badMagic ∨ ∃ part, unframe p = .error (.truncated part) := by
  obtain ⟨t, ht⟩ := hcut
  have htail : 0 < t.length := List.length_pos_of_ne_nil fun hnil =>
    hne (by rw [← ht, hnil, List.append_nil])
  have hlength : p.length + t.length = 16 + b.length := by
    rw [← length_frame, ← ht, List.length_append]
  have hmagic := take_magic_frame b
  have hversion := take_version_frame b
  have hsize := take_length_frame b
  rw [← ht] at hmagic hversion hsize
  unfold unframe
  split
  case isTrue => exact .inl rfl
  case isFalse hstart =>
    rw [not_or, Nat.not_lt] at hstart
    rw [List.drop_append_of_le_length (by omega),
      List.take_append_of_le_length (by rw [List.length_drop]; omega)] at hversion
    dsimp only
    rw [hversion, if_neg (by decide)]
    right
    split
    case isTrue => exact ⟨_, rfl⟩
    case isFalse hheader =>
      rw [List.drop_append_of_le_length (by omega),
        List.take_append_of_le_length (by rw [List.length_drop]; omega)] at hsize
      rw [hsize, Bytes.toNat_ofNat_of_lt h, if_pos (by rw [List.length_drop]; omega)]
      exact ⟨_, rfl⟩

end VectorQuery.SnapshotFile

/-! ## Building again -/

namespace VectorQuery.Snapshot

/-- Operators that fit their spaces. -/
def FitsSpaces (d : Dimensions) (m : OrderedMap RelationKey Operator) : Prop :=
  ∀ e ∈ m.entries, validateRelation d ⟨e.1, e.2⟩ = .ok ()

theorem FitsSpaces.insert {d : Dimensions} {m : OrderedMap RelationKey Operator} {r : Relation}
    (h : FitsSpaces d m) (hr : validateRelation d r = .ok ()) :
    FitsSpaces d (m.insert r.key r.operator) := by
  intro e he
  have hget := (OrderedMap.get?_eq_some_iff _ e.1 e.2).2 he
  rw [OrderedMap.get?_insert] at hget
  split at hget
  · rename_i hkey
    rw [Std.LawfulEqOrd.compare_eq_iff_eq.1 hkey, ← Option.some.inj hget]
    exact hr
  · exact h e ((OrderedMap.get?_eq_some_iff m e.1 e.2).1 hget)

theorem fitsSpaces_of_gatherRelations {d : Dimensions} {m m' : OrderedMap RelationKey Operator}
    {rs : List Relation} (h : FitsSpaces d m) (hgather : gatherRelations d m rs = .ok m') :
    FitsSpaces d m' := by
  induction rs generalizing m with
  | nil =>
      cases hgather
      exact h
  | cons r rs ih =>
      obtain ⟨⟨⟩, hr, hrest⟩ := ok_of_bind hgather
      exact ih (h.insert hr) hrest

theorem gatherRelations_eq {d : Dimensions} {m : OrderedMap RelationKey Operator}
    {rs : List Relation} (h : ∀ r ∈ rs, validateRelation d r = .ok ()) :
    gatherRelations d m rs = .ok (withRelations m rs) := by
  induction rs generalizing m with
  | nil => rfl
  | cons r rs ih =>
      rw [gatherRelations, h r List.mem_cons_self]
      exact ih fun r' hr' => h r' (List.mem_cons_of_mem r hr')

section Built

variable {es : List (Entity Double)} {rs : List Relation} {config : StoreConfig} {generation : Nat}
  {created : Instant} {s : Snapshot}

/-- A snapshot is what is built from its own entities and relations. -/
theorem build_self (h : build es rs config generation created = .ok s) :
    build s.entities.toList s.relationList config s.generation s.created = .ok s := by
  obtain ⟨catalog, relations, hcatalog, hrelations, rfl⟩ := parts_of_build h
  have hagain : gatherRelations (.of es) .empty
      (relations.entries.map fun e => (⟨e.1, e.2⟩ : Relation)) = .ok relations := by
    rw [gatherRelations_eq, withRelations_entries]
    intro r hr
    obtain ⟨e, he, rfl⟩ := List.mem_map.1 hr
    exact fitsSpaces_of_gatherRelations (by rintro _ ⟨⟩) hrelations e he
  change build (es.map named) (relations.entries.map fun e => ⟨e.1, e.2⟩) config generation
    created = _
  rw [build_named]
  simp only [build, hcatalog, hagain]
  rfl

theorem checksums_of_build (h : build es rs config generation created = .ok s) :
    s.checksums = s.entities.toList.map Entity.checksum := by
  obtain ⟨_, _, -, -, rfl⟩ := parts_of_build h
  rfl

end Built

/-- No entity differs from its checksum exactly if all checksums are as computed. -/
theorem find?_checksum_eq_none_iff {es : List (Entity Double)} {sums : List Bytes}
    (h : sums.length = es.length) :
    (es.zip sums).find? (fun x => x.1.checksum ≠ x.2) = none ↔ sums = es.map Entity.checksum := by
  induction es generalizing sums with
  | nil =>
      rw [List.length_nil, List.length_eq_zero_iff] at h
      exact iff_of_true rfl h
  | cons e es ih =>
      obtain ⟨sum, sums, rfl⟩ := List.exists_cons_of_length_eq_add_one h
      rw [List.zip_cons_cons, List.find?_cons, List.map_cons, List.cons.injEq]
      by_cases hsum : e.checksum = sum
      · simp only [hsum, ne_eq, not_true_eq_false, decide_false, true_and]
        exact ih (Nat.succ.inj h)
      · simp [hsum, Ne.symm hsum]

/-- Checksums are verified by computing them again. -/
theorem verify_eq_ok_iff {s : Snapshot} (h : s.checksums.length = s.size) :
    s.verify = .ok () ↔ s.checksums = s.entities.toList.map Entity.checksum := by
  rw [← find?_checksum_eq_none_iff (h.trans Array.length_toList.symm)]
  unfold verify
  cases (s.entities.toList.zip s.checksums).find? fun x => x.1.checksum ≠ x.2 with
  | none => exact iff_of_true rfl rfl
  | some _ => exact iff_of_false nofun nofun

end VectorQuery.Snapshot

/-! ## Files -/

namespace VectorQuery.SnapshotFile

open Snapshot (build)

variable {config : StoreConfig} {s : Snapshot}

theorem getNat_lt {width n : Nat} {bs rest : Bytes} (h : getNat width bs = some (n, rest)) :
    n < 256 ^ width := by
  obtain ⟨⟨b, _⟩, htake, heq⟩ := Option.map_eq_some_iff.1 h
  obtain ⟨rfl, -⟩ := Prod.mk.inj heq
  unfold take at htake
  split at htake
  · exact nomatch htake
  · obtain ⟨rfl, -⟩ := Prod.mk.inj (Option.some.inj htake)
    refine Nat.lt_of_lt_of_le (Bytes.toNat_lt _) (Nat.pow_le_pow_right (by decide) ?_)
    exact List.length_take_le _ _

/-- What a body holds is held in words and instants. -/
theorem bounds_of_getBody {bs : Bytes} {b : Body} (h : getBody bs = some b) :
    b.generation < 2 ^ 64 ∧ b.created.Valid := by
  simp only [getBody, bind, Option.bind_eq_some_iff, Prod.exists] at h
  obtain ⟨generation, _, hgeneration, _, _, -, created, hcreated, _, _, -, _, _, -, _, _, -,
    heq⟩ := h
  obtain rfl := Option.some.inj heq
  exact ⟨getNat_lt hgeneration, Instant.valid_of_ofText? hcreated⟩

/-- A restored snapshot is the one that is built from the body of its file. -/
theorem exists_build_of_decode {bytes : Bytes} (h : decode config bytes = .ok s) :
    ∃ b : Body, b.generation < 2 ^ 64 ∧ b.created.Valid ∧
      build b.entities b.relations config b.generation b.created = .ok s := by
  obtain ⟨bs, -, h⟩ := ok_of_bind h
  cases hbody : getBody bs with
  | none =>
      rw [hbody] at h
      exact nomatch h
  | some b =>
      rw [hbody] at h
      obtain ⟨hgeneration, hcreated⟩ := bounds_of_getBody hbody
      obtain ⟨built, hbuild, h⟩ := ok_of_bind h
      refine ⟨b, hgeneration, hcreated, hbuild.trans ?_⟩
      split at h
      case isTrue => exact nomatch h
      case isFalse hlength =>
        obtain ⟨⟨⟩, hverify, heq⟩ := ok_of_bind h
        have hsums : b.checksums = built.entities.toList.map Entity.checksum :=
          (Snapshot.verify_eq_ok_iff (not_not.1 hlength)).1 hverify
        rw [← heq, hsums, ← Snapshot.checksums_of_build hbuild]

/-- A snapshot that is built is read back from its file. -/
theorem decode_encode_of_build {es : List (Entity Double)} {rs : List Relation} {generation : Nat}
    {created : Instant} (hgeneration : generation < 2 ^ 64) (hcreated : created.Valid)
    (h : build es rs config generation created = .ok s) (hlength : (encode s).length < 2 ^ 64) :
    decode config (encode s) = .ok s := by
  have hsums := Snapshot.checksums_of_build h
  have hself := Snapshot.build_self h
  obtain ⟨rfl, rfl⟩ : generation = s.generation ∧ created = s.created := by
    obtain ⟨_, _, -, -, rfl⟩ := Snapshot.parts_of_build h
    exact ⟨rfl, rfl⟩
  rw [encode, length_frame] at hlength
  have hdigests : ∀ sum ∈ s.checksums, sum.length = 32 := by
    rw [hsums]
    intro sum hsum
    obtain ⟨e, -, rfl⟩ := List.mem_map.1 hsum
    exact length_digest _
  have hbody := getBody_body hgeneration hcreated hdigests (by omega)
  have hsize : s.checksums.length = s.size := by
    rw [hsums, List.length_map]
    exact Array.length_toList
  have hverify := (Snapshot.verify_eq_ok_iff hsize).2 hsums
  have hunframe : unframe (frame (body s.created.stamp s)) = .ok (body s.created.stamp s) :=
    unframe_frame (by omega)
  simp only [decode, encode, hunframe, hbody, hself, hverify, hsize, bind, Except.bind, ne_eq,
    not_true_eq_false, if_false]

theorem decode_prefix {p : Bytes} (hlength : (encode s).length < 2 ^ 64) (hcut : p <+: encode s)
    (hne : p ≠ encode s) :
    decode config p = .error .badMagic ∨ ∃ part, decode config p = .error (.truncated part) := by
  rw [encode, length_frame] at hlength
  rcases unframe_prefix (by omega) hcut hne with herror | ⟨part, herror⟩
  · rw [decode, herror]
    exact .inl rfl
  · rw [decode, herror]
    exact .inr ⟨part, rfl⟩

/-! ## Snapshots of a store -/

/-- The snapshots that are built, loaded or restored with these settings. -/
inductive Obtained (config : StoreConfig) : Snapshot → Prop
  | build {es : List (Entity Double)} {rs : List Relation} {generation : Nat} {created : Instant}
      {s : Snapshot} (hgeneration : generation < 2 ^ 64) (hcreated : created.Valid)
      (h : build es rs config generation created = .ok s) : Obtained config s
  | load {store next : Store} {l : Load} (hconfig : store.config = config) (hnow : l.now.Valid)
      (h : store.load l.entities l.relations l.now = .ok next) : Obtained config next.current
  | restore {bytes : Bytes} {s : Snapshot} (h : decode config bytes = .ok s) : Obtained config s

namespace Obtained

/-- Whichever way a snapshot was obtained, it was built. -/
theorem exists_build (h : Obtained config s) :
    ∃ es rs generation created, generation < 2 ^ 64 ∧ created.Valid ∧
      Snapshot.build es rs config generation created = .ok s := by
  cases h with
  | build hgeneration hcreated h => exact ⟨_, _, _, _, hgeneration, hcreated, h⟩
  | load hconfig hnow h =>
      obtain ⟨-, hbuild⟩ := Store.exists_build h
      exact ⟨_, _, _, _, Number.word_lt _, hnow, hconfig ▸ hbuild⟩
  | restore h =>
      obtain ⟨b, hgeneration, hcreated, hbuild⟩ := exists_build_of_decode h
      exact ⟨_, _, _, _, hgeneration, hcreated, hbuild⟩

theorem made (h : Obtained config s) : s.Made :=
  let ⟨_, _, _, _, _, _, hbuild⟩ := h.exists_build
  .build hbuild

/-- Before any load a store holds the snapshot that is built of nothing. -/
theorem empty (config : StoreConfig) : Obtained config .empty :=
  have hcreated : Instant.Valid ⟨0, 0⟩ := ⟨by decide, by decide, nofun⟩
  have hbuild : Snapshot.build [] [] config 0 ⟨0, 0⟩ = .ok .empty := rfl
  .build (by decide) hcreated hbuild

theorem after {store : Store} (h : Obtained store.config store.current) {l : Load}
    (hnow : l.now.Valid) :
    (store.after l).config = store.config ∧ Obtained store.config (store.after l).current := by
  unfold Store.after
  cases hload : store.load l.entities l.relations l.now with
  | ok next => exact ⟨(Store.exists_build hload).1, .load rfl hnow hload⟩
  | error e => exact ⟨rfl, h⟩

/-- A store holds such a snapshot after any loads. -/
theorem afterAll {store : Store} (h : Obtained store.config store.current) (calls : List Load)
    (hnow : ∀ l ∈ calls, l.now.Valid) : Obtained store.config (store.afterAll calls).current := by
  induction calls generalizing store with
  | nil => exact h
  | cons l calls ih =>
      obtain ⟨hconfig, hafter⟩ := h.after (hnow l List.mem_cons_self)
      rw [← hconfig] at hafter ⊢
      exact ih hafter fun l' hl' => hnow l' (List.mem_cons_of_mem l hl')

end Obtained

/-- **Snapshot files.** A snapshot is read back from its file, and a file that is cut short is
refused: it has no header left, or less of a body than its header says.  The length of a file is
written as a word, so it is that of a byte string in memory. -/
theorem decode_encode (h : Obtained config s) (hlength : (encode s).length < 2 ^ 64) :
    decode config (encode s) = .ok s ∧
      ∀ p, p <+: encode s → p ≠ encode s →
        decode config p = .error .badMagic ∨
          ∃ part, decode config p = .error (.truncated part) := by
  obtain ⟨es, rs, generation, created, hgeneration, hcreated, hbuild⟩ := h.exists_build
  exact ⟨decode_encode_of_build hgeneration hcreated hbuild hlength,
    fun p => decode_prefix hlength⟩

/-- A snapshot of two commands with metadata, one of them without a display name, and a relation. -/
def commandSnapshot : Except StoreError Snapshot :=
  build
    [⟨"command", "deps", "Dependencies", [1], [], .ofList [("importance", .number 5)]⟩,
      ⟨"command", "lint", "", [1], [], .ofList [("safe", .bool true), ("owner", .text "build")]⟩]
    [⟨⟨"command", "follows", "command"⟩, .offset [0]⟩] {} 1 ⟨1700000000, 250000000⟩

theorem exists_commandSnapshot : ∃ s, commandSnapshot = .ok s ∧ Obtained {} s := by
  have hok : commandSnapshot.isOk = true := by decide +kernel
  cases hbuild : commandSnapshot with
  | error e =>
      rw [hbuild] at hok
      exact nomatch hok
  | ok s =>
      exact ⟨s, rfl,
        .build (by decide) ⟨by decide, by decide, fun h => absurd h (by decide)⟩ hbuild⟩

theorem decode_encode_commands :
    ∃ s, commandSnapshot = .ok s ∧ Obtained {} s ∧ (encode s).length < 2 ^ 64 ∧
      decode {} (encode s) = .ok s := by
  obtain ⟨s, hbuild, hobtained⟩ := exists_commandSnapshot
  have hlength : (encode (commandSnapshot.toOption.getD .empty)).length < 2 ^ 64 := by
    decide +kernel
  rw [hbuild] at hlength
  exact ⟨s, hbuild, hobtained, hlength, (decode_encode hobtained hlength).1⟩

example : (Snapshot.build [] [] {} 1 ⟨0, 0⟩).isOk = true := by
  decide +kernel

end VectorQuery.SnapshotFile
