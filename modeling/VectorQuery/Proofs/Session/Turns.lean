/-
# Turns of a session

A session passes over an input line, cannot write it to its history file, refuses it, or carries
out the command in it (`Answers`).  A command changes the limit, the engine or the files, and at
most one of them (`Performs`).  The files are of any kind that the library can work on.
-/
import VectorQuery.Proofs.Files
import VectorQuery.Proofs.Session.Orders

namespace VectorQuery

namespace Session

/-- The session that also remembers a line. -/
def record (s : Session) (line : String) : Session := { s with history := s.history ++ [line] }

@[simp] theorem record_engine (s : Session) (line : String) :
    (s.record line).engine = s.engine := rfl

@[simp] theorem record_limit (s : Session) (line : String) :
    (s.record line).limit = s.limit := rfl

@[simp] theorem record_log (s : Session) (line : String) : (s.record line).log = s.log := rfl

/-- How a session carries out a command, and what becomes of it and of the files. -/
inductive Performs {W : Type} [Files (StateM W)] (now : Instant) (s : Session) (files : W) :
    Command → Except SessionError Reply → Session → W → Prop
  | inquired (i : Inquiry) :
      Performs now s files (.inquire i) ((s.answer i).map (⟨·, false⟩)) s files
  | ended : Performs now s files .exit (.ok ⟨"", true⟩) s files
  | limited (most : Option Nat) :
      Performs now s files (.limit most) (.ok (.lines [limitText most]))
        { s with limit := most } files
  | saved {path : String} {files' : W} :
      Files.run (s.engine.store.save path) files = (.ok (), files') →
      Performs now s files (.save path) (.ok (.lines ["saved snapshot to " ++ path])) s files'
  | unsaved {path : String} {e : StoreError} {files' : W} :
      Files.run (s.engine.store.save path) files = (.error e, files') →
      Performs now s files (.save path) (.error (.save e)) s files'
  | loaded {path : String} {store : Store} {files' : W} :
      Files.run (Store.ofPath s.engine.config.store now (some path)) files = (.ok store, files') →
      Performs now s files (.load path) (.ok (.lines [loadedText store.current path]))
        { s with engine := Engine.new store s.engine.config } files'
  | unloaded {path : String} {e : OpenError} {files' : W} :
      Files.run (Store.ofPath s.engine.config.store now (some path)) files = (.error e, files') →
      Performs now s files (.load path) (.error (.openStore e)) s files'

/-- How a session answers an input line, and what becomes of it and of the files. -/
inductive Answers {W : Type} [Files (StateM W)] (now : Instant) (line : String) (s : Session)
    (files : W) : Except SessionError Reply → Session → W → Prop
  /-- The line is empty or a comment. -/
  | ignored : recorded? line = none → Answers now line s files (.ok ⟨"", false⟩) s files
  /-- The line is not written to the history file. -/
  | unnoted {input : String} {e : FileError} {noted : W} :
      recorded? line = some input → Files.run (s.note now input) files = (.error e, noted) →
      Answers now line s files (.error (.log e)) (s.record input) noted
  /-- The line gives no command. -/
  | refused {input : String} {e : SessionError} {noted : W} :
      recorded? line = some input → Files.run (s.note now input) files = (.ok (), noted) →
      Command.ofLine input = .error e →
      Answers now line s files (.error e) (s.record input) noted
  /-- The line gives a command. -/
  | performed {input : String} {c : Command} {noted : W} {answer : Except SessionError Reply}
      {s' : Session} {files' : W} :
      recorded? line = some input → Files.run (s.note now input) files = (.ok (), noted) →
      Command.ofLine input = .ok c → Performs now (s.record input) noted c answer s' files' →
      Answers now line s files answer s' files'

variable {W : Type} [Files (StateM W)] {s s' : Session} {now : Instant} {line : String}
  {files files' : W} {answer : Except SessionError Reply}

@[simp] theorem note_record (s : Session) (input : String) :
    (s.record input).note now line = (s.note now line : StateM W _) := rfl

theorem dispatch_ignored (h : recorded? line = none) :
    Files.run (s.dispatch now line) files = ((s, .ok ⟨"", false⟩), files) := by
  rw [recorded?_eq] at h
  split at h
  · cases h
  · rename_i hskip
    rw [dispatch, if_pos (by simpa using hskip), Files.run_pure]

theorem dispatch_recorded {input : String} (h : recorded? line = some input) :
    Files.run (s.dispatch now line) files =
      match Files.run (s.note now input) files with
      | (.error e, noted) => ((s.record input, .error (.log e)), noted)
      | (.ok (), noted) =>
        match Command.ofLine input with
        | .error e => ((s.record input, .error e), noted)
        | .ok c => Files.run ((s.record input).perform now c) noted := by
  rw [recorded?_eq] at h
  split at h
  · rename_i hinput
    cases h
    rw [dispatch, if_neg (by simpa using hinput), Files.run_bind,
      show ({ s with history := s.history ++ [.ofList (Text.trimBlanks line.toList)] } : Session)
        = s.record (.ofList (Text.trimBlanks line.toList)) from rfl, note_record]
    rcases Files.run (s.note now (.ofList (Text.trimBlanks line.toList))) files with
      ⟨⟨e⟩ | ⟨⟩, noted⟩
    · rfl
    · cases Command.ofLine (.ofList (Text.trimBlanks line.toList)) <;> rfl
  · cases h

theorem performs_of_perform {c : Command}
    (h : Files.run (s.perform now c) files = ((s', answer), files')) :
    Performs now s files c answer s' files' := by
  cases c with
  | inquire i =>
    cases h
    exact .inquired i
  | exit =>
    cases h
    exact .ended
  | limit most =>
    cases h
    exact .limited most
  | save path =>
    rw [perform, Files.run_bind] at h
    rcases hsave : Files.run (s.engine.store.save path) files with ⟨⟨e⟩ | ⟨⟩, saved⟩ <;>
      rw [hsave] at h <;> cases h
    · exact .unsaved hsave
    · exact .saved hsave
  | load path =>
    rw [perform, Files.run_bind] at h
    rcases hload : Files.run (Store.ofPath s.engine.config.store now (some path)) files with
      ⟨⟨e⟩ | ⟨store⟩, read⟩ <;> rw [hload] at h <;> cases h
    · exact .unloaded hload
    · exact .loaded hload

theorem answers_of_dispatch
    (h : Files.run (s.dispatch now line) files = ((s', answer), files')) :
    Answers now line s files answer s' files' := by
  cases hrecorded : recorded? line with
  | none =>
    rw [dispatch_ignored hrecorded] at h
    cases h
    exact .ignored hrecorded
  | some input =>
    rw [dispatch_recorded hrecorded] at h
    rcases hnote : Files.run (s.note now input) files with ⟨⟨e⟩ | ⟨⟩, noted⟩
    · rw [hnote] at h
      cases h
      exact .unnoted hrecorded hnote
    · rw [hnote] at h
      cases hcommand : Command.ofLine input with
      | error e =>
        rw [hcommand] at h
        cases h
        exact .refused hrecorded hnote hcommand
      | ok c =>
        rw [hcommand] at h
        exact .performed hrecorded hnote hcommand (performs_of_perform h)

/-! ## What a turn keeps -/

theorem Performs.log_eq {c : Command} (h : Performs now s files c answer s' files') :
    s'.log = s.log := by
  cases h <;> rfl

theorem Performs.history_eq {c : Command} (h : Performs now s files c answer s' files') :
    s'.history = s.history := by
  cases h <;> rfl

theorem Performs.config_eq {c : Command} (h : Performs now s files c answer s' files') :
    s'.engine.config = s.engine.config := by
  cases h <;> rfl

theorem Answers.log_eq (h : Answers now line s files answer s' files') : s'.log = s.log := by
  cases h with
  | ignored _ => rfl
  | unnoted _ _ => rfl
  | refused _ _ _ => rfl
  | performed _ _ _ h => exact h.log_eq

theorem Answers.config_eq (h : Answers now line s files answer s' files') :
    s'.engine.config = s.engine.config := by
  cases h with
  | ignored _ => rfl
  | unnoted _ _ => rfl
  | refused _ _ _ => rfl
  | performed _ _ _ h => exact h.config_eq

/-- Whatever a line says and whether or not it succeeds, it is remembered once. -/
theorem Answers.history_eq (h : Answers now line s files answer s' files') :
    s'.history = s.history ++ (recorded? line).toList := by
  cases h with
  | ignored h => rw [h, Option.toList_none, List.append_nil]
  | unnoted h _ => rw [h]; rfl
  | refused h _ _ => rw [h]; rfl
  | performed h _ _ hperforms => rw [hperforms.history_eq, h]; rfl

/-! ## A whole session -/

/-- A session after lines, each with the time at which it is given, and the files then. -/
def afterAll (s : Session) (files : W) : List (Instant × String) → Session × W
  | [] => (s, files)
  | (now, line) :: inputs =>
    let ((after, _), files') := Files.run (s.dispatch now line) files
    after.afterAll files' inputs

theorem afterAll_history (s : Session) (files : W) (inputs : List (Instant × String)) :
    (s.afterAll files inputs).1.history =
      s.history ++ inputs.filterMap fun i => recorded? i.2 := by
  induction inputs generalizing s files with
  | nil => simp [afterAll]
  | cons input inputs ih =>
    obtain ⟨now, line⟩ := input
    rcases hturn : Files.run (s.dispatch now line) files with ⟨⟨after, answer⟩, files'⟩
    have hhistory := (answers_of_dispatch hturn).history_eq
    rw [afterAll, hturn]
    dsimp only
    rw [ih, hhistory, List.append_assoc]
    cases h : recorded? line <;> simp [h]

end Session

end VectorQuery
