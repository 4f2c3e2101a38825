/-
# What changes a session

A session's history grows by the lines that it is given, its limit is changed by `limit` lines and
its engine by `load` lines, and by nothing else (`afterAll_state`).  The orders are described here
by the text of a line, and not by the way it is read.
-/
import VectorQuery.Proofs.Session.Turns

namespace VectorQuery

/-! ## The last that gives a value -/

/-- `b` is what the last member that gives a value gives, and `start` if no member gives one. -/
def IsLast {α β : Type} (gives : α → β → Prop) (start : β) (as : List α) (b : β) : Prop :=
  (∃ before a after, as = before ++ a :: after ∧ gives a b ∧ ∀ a' ∈ after, ∀ b', ¬ gives a' b') ∨
    b = start ∧ ∀ a ∈ as, ∀ b', ¬ gives a b'

namespace IsLast

variable {α β : Type} {gives : α → β → Prop} {start b c : β} {a : α} {as : List α}

theorem nil : IsLast gives start [] start := .inr ⟨rfl, nofun⟩

theorem cons_of_gives (hgives : gives a b) (h : IsLast gives b as c) :
    IsLast gives start (a :: as) c := by
  rcases h with ⟨before, a', after, rfl, ha', hafter⟩ | ⟨rfl, hnone⟩
  · exact .inl ⟨a :: before, a', after, rfl, ha', hafter⟩
  · exact .inl ⟨[], a, as, rfl, hgives, hnone⟩

theorem cons_of_not (hnot : ∀ b, ¬ gives a b) (h : IsLast gives start as c) :
    IsLast gives start (a :: as) c := by
  rcases h with ⟨before, a', after, rfl, ha', hafter⟩ | ⟨rfl, hnone⟩
  · exact .inl ⟨a :: before, a', after, rfl, ha', hafter⟩
  · refine .inr ⟨rfl, fun a' ha' => ?_⟩
    rcases List.mem_cons.1 ha' with rfl | ha'
    · exact hnot
    · exact hnone a' ha'

end IsLast

namespace Session

/-! ## One turn -/

section

variable {W : Type} [Files (StateM W)] {s s' : Session} {now : Instant} {line : String}
  {files files' : W} {answer : Except SessionError Reply}

theorem note_eq_ok (hlog : ∀ path ∈ s.log, Files.CanAppend W path) (now : Instant)
    (input : String) (files : W) : (Files.run (s.note now input) files).1 = .ok () := by
  unfold note
  cases h : s.log with
  | none => rfl
  | some path => exact hlog path h _ files

theorem Answers.limit_eq (hlog : ∀ path ∈ s.log, Files.CanAppend W path)
    (h : Answers now line s files answer s' files') {limit : Option Nat}
    (hsets : SetsLimit line limit) : s'.limit = limit := by
  cases h with
  | ignored hnone =>
    obtain ⟨argument, horders, -⟩ := hsets
    rw [recorded?_of_orders horders rfl (by decide)] at hnone
    cases hnone
  | @unnoted input _ _ _ hnote =>
    have hok := note_eq_ok hlog now input files
    rw [hnote] at hok
    cases hok
  | refused hinput _ hcommand =>
    rw [(ofLine_eq_limit_iff hinput).2 hsets] at hcommand
    cases hcommand
  | performed hinput _ hcommand hperforms =>
    rw [(ofLine_eq_limit_iff hinput).2 hsets] at hcommand
    cases hcommand
    cases hperforms
    rfl

theorem Answers.limit_keeps (h : Answers now line s files answer s' files')
    (hnot : ∀ limit, ¬ SetsLimit line limit) : s'.limit = s.limit := by
  cases h with
  | ignored _ => rfl
  | unnoted _ _ => rfl
  | refused _ _ _ => rfl
  | performed hinput _ hcommand hperforms =>
    cases hperforms with
    | limited limit => exact absurd ((ofLine_eq_limit_iff hinput).1 hcommand) (hnot limit)
    | _ => rfl

/-- A line that fails changes neither the limit nor the engine. -/
theorem Answers.error_keeps {e : SessionError}
    (h : Answers now line s files (.error e) s' files') :
    s'.limit = s.limit ∧ s'.engine = s.engine := by
  generalize hanswer : Except.error e = answer at h
  cases h with
  | ignored _ => exact ⟨rfl, rfl⟩
  | unnoted _ _ => exact ⟨rfl, rfl⟩
  | refused _ _ _ => exact ⟨rfl, rfl⟩
  | performed _ _ _ hperforms =>
    cases hperforms with
    | limited _ => cases hanswer
    | loaded _ => cases hanswer
    | _ => exact ⟨rfl, rfl⟩

end

/-- A line that a session has answered, what it had the files and the session become, and how it
was answered. -/
structure Turn (W : Type) where
  now : Instant
  line : String
  before : Session
  files : W
  answer : Except SessionError Reply
  after : Session

namespace Turn

variable {W : Type} [Files (StateM W)]

/-- The files as the command of the line finds them, which is then in the history file. -/
def found (t : Turn W) : W :=
  match recorded? t.line with
  | none => t.files
  | some input => (Files.run (t.before.note t.now input) t.files).2

/-- The line is a `load` line that succeeded, and this is the engine of what it loaded. -/
def Loads (config : EngineConfig) (t : Turn W) (engine : Engine) : Prop :=
  ∃ path store reply, Orders t.line "load" path ∧ t.answer = .ok reply ∧
    (Files.run (Store.ofPath config.store t.now (some path)) t.found).1 = .ok store ∧
    engine = Engine.new store config

/-- The answer is the session's. -/
def IsAnswered (t : Turn W) : Prop :=
  ∃ files', Answers t.now t.line t.before t.files t.answer t.after files'

theorem found_eq {t : Turn W} {input : String} {outcome : Except FileError Unit} {noted : W}
    (hinput : recorded? t.line = some input)
    (hnote : Files.run (t.before.note t.now input) t.files = (outcome, noted)) :
    t.found = noted := by
  rw [found, hinput]
  dsimp only
  rw [hnote]

theorem IsAnswered.engine_eq {t : Turn W} (h : t.IsAnswered) {engine : Engine}
    (hloads : t.Loads t.before.engine.config engine) : t.after.engine = engine := by
  obtain ⟨files', h⟩ := h
  obtain ⟨path, store, reply, horders, hanswer, hstore, rfl⟩ := hloads
  generalize t.answer = answer, hafter : t.after = after at h hanswer
  cases h with
  | ignored hnone =>
    rw [recorded?_of_orders horders rfl (by decide)] at hnone
    cases hnone
  | unnoted _ _ => cases hanswer
  | refused _ _ _ => cases hanswer
  | performed hinput hnote hcommand hperforms =>
    rw [found_eq hinput hnote] at hstore
    rw [(ofLine_eq_load_iff hinput).2 horders] at hcommand
    cases hcommand
    cases hperforms with
    | loaded hload =>
      rw [record_engine] at hload
      rw [hload] at hstore
      cases hstore
      rfl
    | unloaded _ => cases hanswer

theorem IsAnswered.engine_keeps {t : Turn W} (h : t.IsAnswered)
    (hnot : ∀ engine, ¬ t.Loads t.before.engine.config engine) :
    t.after.engine = t.before.engine := by
  obtain ⟨files', h⟩ := h
  generalize hanswer : t.answer = answer, hafter : t.after = after at h
  cases h with
  | ignored _ => rfl
  | unnoted _ _ => rfl
  | refused _ _ _ => rfl
  | performed hinput hnote hcommand hperforms =>
    cases hperforms with
    | @loaded path store _ hload =>
      have hfound : (Files.run (Store.ofPath t.before.engine.config.store t.now (some path))
          t.found).1 = .ok store := by
        rw [found_eq hinput hnote]
        exact congrArg Prod.fst hload
      exact absurd ⟨path, store, _, (ofLine_eq_load_iff hinput).1 hcommand, hanswer, hfound, rfl⟩
        (hnot (Engine.new store t.before.engine.config))
    | _ => rfl

end Turn

/-! ## A whole session -/

variable {W : Type} [Files (StateM W)]

/-- What a session does with lines, each with the time at which it is given. -/
def turns (s : Session) (files : W) : List (Instant × String) → List (Turn W)
  | [] => []
  | (now, line) :: inputs =>
    let ((after, answer), files') := Files.run (s.dispatch now line) files
    ⟨now, line, s, files, answer, after⟩ :: after.turns files' inputs

/-- At every turn the session is what the turns before made of it, and its answers are its own. -/
theorem of_mem_turns (s : Session) (files : W) (inputs : List (Instant × String)) :
    ∀ t ∈ s.turns files inputs, t.IsAnswered ∧ t.before.log = s.log ∧
      t.before.engine.config = s.engine.config := by
  induction inputs generalizing s files with
  | nil => simp [turns]
  | cons input inputs ih =>
    obtain ⟨now, line⟩ := input
    rcases hturn : Files.run (s.dispatch now line) files with ⟨⟨after, answer⟩, files'⟩
    have hanswers := answers_of_dispatch hturn
    intro t ht
    rw [turns, hturn] at ht
    rcases List.mem_cons.1 ht with rfl | ht
    · exact ⟨⟨files', hanswers⟩, rfl, rfl⟩
    · obtain ⟨hanswered, hlog, hconfig⟩ := ih after files' t ht
      exact ⟨hanswered, hlog.trans hanswers.log_eq, hconfig.trans hanswers.config_eq⟩

/-- What each turn sets when it gives a value, and otherwise keeps, is in the end what the last
turn gave. -/
theorem isLast_turns {β : Type} (get : Session → β) (gives : Turn W → β → Prop) (s : Session)
    (files : W) (inputs : List (Instant × String))
    (hsets : ∀ t ∈ s.turns files inputs, ∀ b, gives t b → get t.after = b)
    (hkeeps : ∀ t ∈ s.turns files inputs, (∀ b, ¬ gives t b) → get t.after = get t.before) :
    IsLast gives (get s) (s.turns files inputs) (get (s.afterAll files inputs).1) := by
  induction inputs generalizing s files with
  | nil => exact .nil
  | cons input inputs ih =>
    obtain ⟨now, line⟩ := input
    rcases hturn : Files.run (s.dispatch now line) files with ⟨⟨after, answer⟩, files'⟩
    rw [turns, hturn] at hsets hkeeps ⊢
    rw [afterAll, hturn]
    have hlast := ih after files' (fun t ht => hsets t (List.mem_cons_of_mem _ ht))
      fun t ht => hkeeps t (List.mem_cons_of_mem _ ht)
    have hsets := hsets _ List.mem_cons_self
    have hkeeps := hkeeps _ List.mem_cons_self
    by_cases hgives : ∃ b, gives ⟨now, line, s, files, answer, after⟩ b
    · obtain ⟨b, hb⟩ := hgives
      have hb' : get after = b := hsets b hb
      rw [hb'] at hlast
      exact .cons_of_gives hb hlast
    · have hkept : get after = get s := hkeeps (not_exists.1 hgives)
      rw [hkept] at hlast
      exact .cons_of_not (not_exists.1 hgives) hlast

end Session

end VectorQuery
