/-
# The history file

Each line that a session remembers goes to the end of its history file, behind the time and a tab.
Only saving a store can change the file otherwise, so a new session reads back what all sessions
before it remembered, unless one of them saved over the file (`loadHistory_afterSessions`).
-/
import VectorQuery.Proofs.Bytes
import VectorQuery.Proofs.Instant.Stamp
import VectorQuery.Proofs.Session.Turns

namespace VectorQuery

namespace Session

/-! ## What the file holds -/

/-- The text of a history file with lines, each with the time at which it was given. -/
def logText (lines : List (Instant × String)) : String :=
  String.join (lines.map fun l => l.1.text ++ "\t" ++ l.2 ++ "\n")

/-- A line that a session remembers: trimmed and of one line, but not empty. -/
structure IsRemembered (line : String) : Prop where
  trimmed : Text.IsTrimmed line.toList
  nonempty : line.toList ≠ []
  unbroken : '\n' ∉ line.toList

theorem isRemembered_of_recorded? {line input : String} (h : recorded? line = some input)
    (hline : '\n' ∉ line.toList) : IsRemembered input := by
  have htext := toList_of_recorded? h
  refine ⟨?_, ?_, ?_⟩
  · rw [htext]
    exact Text.isTrimmed_trimBlanks _
  · intro hempty
    rw [htext] at hempty
    rw [recorded?, hempty] at h
    cases h
  · rw [htext]
    exact fun hmem => hline (Text.mem_of_mem_trimBlanks hmem)

theorem remembered?_append {before : List Char} (h : '\t' ∉ before) (input : List Char) :
    remembered? (before ++ '\t' :: input) = some input := by
  have hbefore : ∀ c ∈ before, (c != '\t') = true := by
    intro c hc
    rw [bne_iff_ne]
    rintro rfl
    exact h hc
  rw [remembered?, List.dropWhile_append_of_pos hbefore, List.dropWhile_cons_of_neg (by decide)]

/-- A line of a history file. -/
def entry (l : Instant × String) : List Char := l.1.text.toList ++ '\t' :: l.2.toList

theorem remembered?_entry {l : Instant × String} (h : IsRemembered l.2) :
    remembered? (Text.dropReturn (entry l)) = some l.2.toList := by
  have hlast : ∀ c ∈ (entry l).getLast?, Text.isBlank c = false := by
    intro c hc
    obtain ⟨d, ds, hinput⟩ := List.exists_cons_of_ne_nil h.nonempty
    refine h.trimmed.last c ?_
    rwa [entry, hinput, List.getLast?_append, List.getLast?_cons_cons, List.getLast?_cons,
      Option.some_or, ← List.getLast?_cons, ← hinput] at hc
  rw [Text.dropReturn_of_last hlast, entry,
    remembered?_append fun hmem => absurd (l.1.isSolid_text _ hmem) (by decide)]

theorem newline_not_mem_entry {l : Instant × String} (h : IsRemembered l.2) : '\n' ∉ entry l := by
  rw [entry, List.mem_append, List.mem_cons]
  rintro (htime | htab | hinput)
  · exact absurd (l.1.isSolid_text _ htime) (by decide)
  · exact absurd htab (by decide)
  · exact h.unbroken hinput

theorem toList_logText (lines : List (Instant × String)) : (logText lines).toList =
    (lines.map entry).flatMap (· ++ ['\n']) := by
  rw [logText, String.toList_join, List.flatMap_map, List.flatMap_map]
  exact List.flatMap_congr fun l _ => by simp [entry]

theorem logText_append (lines more : List (Instant × String)) :
    logText (lines ++ more) = logText lines ++ logText more := by
  rw [logText, List.map_append, String.join_append, ← logText, ← logText]

/-- The lines of a history file are read back. -/
theorem rememberedIn_logText {lines : List (Instant × String)}
    (h : ∀ l ∈ lines, IsRemembered l.2) : rememberedIn (logText lines) = lines.map (·.2) := by
  have hunbroken : ∀ line ∈ lines.map entry, '\n' ∉ line := by
    intro line hline
    obtain ⟨l, hl, rfl⟩ := List.mem_map.1 hline
    exact newline_not_mem_entry (h l hl)
  have hread : ((lines.map entry).map Text.dropReturn).filterMap remembered? =
      lines.map (·.2.toList) := by
    rw [List.map_map, List.filterMap_map, ← List.filterMap_eq_map]
    refine List.filterMap_congr fun l hl => ?_
    simp only [Function.comp_apply]
    exact remembered?_entry (h l hl)
  rw [rememberedIn, toList_logText, Text.linesOf_flatMap hunbroken, hread, List.map_map]
  exact List.map_congr_left fun l _ => String.ofList_toList

/-! ## What a turn does to the file -/

/-- The history file of a session is the file of a name. -/
def LogsTo (s : Session) (name : String) : Prop := ∃ path, s.log = some path ∧ Path.Leads path name

/-- A line saves the store to the file of a name, or by way of it. -/
def SavesOver (line name : String) : Prop :=
  ∃ path, Orders line "save" path ∧
    (Path.Leads path name ∨ Path.Leads (Path.withExtension path "hdqs.tmp") name)

/-- The lines that a session remembers of its input, each with its time. -/
def noted (inputs : List (Instant × String)) : List (Instant × String) :=
  inputs.filterMap fun i => (recorded? i.2).map (i.1, ·)

/-- A history file holds lines. -/
def Holds (d : Directory) (name : String) (lines : List (Instant × String)) : Prop :=
  d.content name = Bytes.ofText (logText lines)

theorem keeps_save (store : Store) {path name : String} (hpath : ¬ Path.Leads path name)
    (hother : ¬ Path.Leads (Path.withExtension path "hdqs.tmp") name) :
    Directory.Keeps name (store.save path) := by
  refine .bind (.bind (Directory.keeps_write hother _) fun outcome => ?_) fun _ => .pure _
  cases outcome with
  | error e => exact .pure _
  | ok u => exact Directory.keeps_rename hother hpath

theorem keeps_ofPath (config : StoreConfig) (now : Instant) (path name : String) :
    Directory.Keeps name (Store.ofPath config now (some path)) := by
  have htext : Directory.Keeps name (Files.readText path) := by
    refine .bind (Directory.keeps_read path) fun outcome => ?_
    cases outcome with
    | error e => exact .pure _
    | ok bytes =>
      dsimp only
      split <;> exact .pure _
  rw [Store.ofPath]
  split
  · refine .bind htext fun outcome => ?_
    cases outcome with
    | error e => exact .pure _
    | ok text =>
      dsimp only
      split <;> exact .pure _
  · refine .bind (Directory.keeps_read path) fun outcome => ?_
    cases outcome <;> exact .pure _

variable {s s' : Session} {now : Instant} {line name : String} {d d' : Directory}
  {answer : Except SessionError Reply} {lines : List (Instant × String)}

theorem holds_note (hlog : s.LogsTo name) (hd : Holds d name lines) (now : Instant)
    (input : String) : ∃ d', Files.run (s.note now input) d = (.ok (), d') ∧
      Holds d' name (lines ++ [(now, input)]) := by
  obtain ⟨path, hpath, hleads⟩ := hlog
  refine ⟨⟨d.files.insert name (d.content name ++ logLine now input)⟩, ?_, ?_⟩
  · rw [note, hpath]
    exact Directory.run_append hleads d _
  · have hline : logText [(now, input)] = now.text ++ "\t" ++ input ++ "\n" := by
      rw [logText, List.map_singleton, String.join_cons, String.join_nil, String.append_empty]
    rw [Holds, Directory.content_insert, hd, logLine, logText_append,
      Bytes.ofText_append (logText lines), hline]

/-- Carrying out a command leaves the history file as it is, unless it saves over it. -/
theorem Performs.content_eq {c : Command} (h : Performs now s d c answer s' d')
    (hsave : ∀ path, c = .save path → ¬ (Path.Leads path name ∨
      Path.Leads (Path.withExtension path "hdqs.tmp") name)) :
    d'.content name = d.content name := by
  have hsaved {path : String} {outcome : Except StoreError Unit}
      (hrun : Files.run (s.engine.store.save path) d = (outcome, d')) (hc : c = .save path) :
      d'.content name = d.content name := by
    obtain ⟨hpath, hother⟩ := not_or.1 (hsave path hc)
    have hkeeps := keeps_save s.engine.store hpath hother d
    rw [hrun] at hkeeps
    exact congrArg (Option.getD · []) hkeeps
  have hread {path : String} {outcome : Except OpenError Store}
      (hrun : Files.run (Store.ofPath s.engine.config.store now (some path)) d = (outcome, d')) :
      d'.content name = d.content name := by
    have hkeeps := keeps_ofPath s.engine.config.store now path name d
    rw [hrun] at hkeeps
    exact congrArg (Option.getD · []) hkeeps
  cases h with
  | saved hrun => exact hsaved hrun rfl
  | unsaved hrun => exact hsaved hrun rfl
  | loaded hrun => exact hread hrun
  | unloaded hrun => exact hread hrun
  | _ => rfl

theorem Answers.holds (h : Answers now line s d answer s' d') (hlog : s.LogsTo name)
    (hsave : ¬ SavesOver line name) (hd : Holds d name lines) :
    Holds d' name (lines ++ noted [(now, line)]) := by
  have hnoted {input : String} (hinput : recorded? line = some input) :
      noted [(now, line)] = [(now, input)] := by
    simp [noted, hinput]
  cases h with
  | ignored hnone =>
    have hnothing : noted [(now, line)] = [] := by simp [noted, hnone]
    rw [hnothing, List.append_nil]
    exact hd
  | @unnoted input _ _ _ hnote =>
    obtain ⟨d', hok, -⟩ := holds_note hlog hd now input
    rw [hok] at hnote
    cases hnote
  | @refused input _ _ hinput hnote _ =>
    obtain ⟨d', hok, hholds⟩ := holds_note hlog hd now input
    rw [hok] at hnote
    cases hnote
    rwa [hnoted hinput]
  | @performed input _ _ _ _ _ hinput hnote hcommand hperforms =>
    obtain ⟨d₁, hok, hholds⟩ := holds_note hlog hd now input
    rw [hok] at hnote
    cases hnote
    rw [hnoted hinput, Holds, hperforms.content_eq ?_, hholds]
    rintro path rfl hleads
    exact hsave ⟨path, orders_of_ofLine_save hinput hcommand, hleads⟩

/-! ## Whole sessions -/

theorem holds_afterAll (hlog : s.LogsTo name) {inputs : List (Instant × String)}
    (hsave : ∀ i ∈ inputs, ¬ SavesOver i.2 name) (hd : Holds d name lines) :
    Holds (s.afterAll d inputs).2 name (lines ++ noted inputs) := by
  induction inputs generalizing s d lines with
  | nil => rwa [noted, List.filterMap_nil, List.append_nil]
  | cons input inputs ih =>
    obtain ⟨now, line⟩ := input
    rcases hturn : Files.run (s.dispatch now line) d with ⟨⟨after, answer⟩, d'⟩
    have hanswers := answers_of_dispatch hturn
    have hholds := hanswers.holds hlog (hsave _ List.mem_cons_self) hd
    have hlog' : after.LogsTo name := by rwa [LogsTo, hanswers.log_eq]
    rw [afterAll, hturn]
    have hrest := ih hlog' (fun i hi => hsave i (List.mem_cons_of_mem _ hi)) hholds
    rwa [List.append_assoc, noted, noted, ← List.filterMap_append] at hrest

/-- The files after sessions, one after the other, each with the lines that it is given. -/
def afterSessions (d : Directory) (sessions : List (Session × List (Instant × String))) :
    Directory :=
  sessions.foldl (fun d p => (p.1.afterAll d p.2).2) d

theorem holds_afterSessions {sessions : List (Session × List (Instant × String))}
    (hlog : ∀ p ∈ sessions, p.1.LogsTo name)
    (hsave : ∀ p ∈ sessions, ∀ i ∈ p.2, ¬ SavesOver i.2 name) (hd : Holds d name lines) :
    Holds (afterSessions d sessions) name (lines ++ sessions.flatMap fun p => noted p.2) := by
  induction sessions generalizing d lines with
  | nil => rwa [List.flatMap_nil, List.append_nil]
  | cons p sessions ih =>
    have hfirst := holds_afterAll (hlog p List.mem_cons_self) (hsave p List.mem_cons_self) hd
    rw [List.flatMap_cons, ← List.append_assoc]
    exact ih (fun q hq => hlog q (List.mem_cons_of_mem _ hq))
      (fun q hq => hsave q (List.mem_cons_of_mem _ hq)) hfirst

/-- A session adds what its history file remembers; a file that is missing holds no text. -/
theorem run_loadHistory (hlog : s.LogsTo name) {text : String}
    (hd : d.content name = Bytes.ofText text) :
    Files.run s.loadHistory d =
      (({ s with history := s.history ++ rememberedIn text }, .ok ()), d) := by
  obtain ⟨path, hpath, hleads⟩ := hlog
  have hread := Directory.run_read hleads d
  rw [loadHistory, hpath]
  simp only [Files.readText, Files.run_bind, hread]
  rw [Directory.content] at hd
  cases hfile : d.files.get? name with
  | some bytes =>
    rw [hfile, Option.getD_some] at hd
    subst hd
    simp only [Bytes.text?_ofText, Files.run_pure]
  | none =>
    rw [hfile, Option.getD_none] at hd
    have hempty : text = "" := Bytes.ofText_injective (hd.symm.trans Bytes.ofText_empty.symm)
    subst hempty
    have hnothing : rememberedIn "" = [] := rfl
    simp only [Files.run_pure, hnothing, List.append_nil]
    rw [← hpath]

theorem map_noted (inputs : List (Instant × String)) :
    (noted inputs).map (·.2) = inputs.filterMap fun i => recorded? i.2 := by
  rw [noted, List.map_filterMap]
  refine List.filterMap_congr fun i _ => ?_
  simp [Function.comp_def]

theorem not_savesOver {line : String} (h : (Text.trimBlanks line.toList).take 4 ≠ "save".toList)
    (name : String) : ¬ SavesOver line name := by
  rintro ⟨path, ⟨gap, hline, -⟩, -⟩
  rw [hline] at h
  exact h (List.take_left' (by decide))

theorem run_save {path other : String} (store : Store) (hpath : Path.Leads path name)
    (hother : Path.Leads (Path.withExtension path "hdqs.tmp") other) (d : Directory) :
    ∃ d', Files.run (store.save path) d = (.ok (), d') ∧
      d'.content name = SnapshotFile.encode store.current := by
  have hwrite := Directory.run_write hother d (SnapshotFile.encode store.current)
  have hrename := Directory.run_rename hother hpath (d := ⟨d.files.insert other
    (SnapshotFile.encode store.current)⟩) (Directory.get?_insert_self _ _ _)
  refine ⟨⟨((d.files.insert other (SnapshotFile.encode store.current)).filter fun n _ =>
    n != other).insert name (SnapshotFile.encode store.current)⟩, ?_, Directory.content_insert _ _ _⟩
  rw [Store.save, Files.replace]
  simp only [Files.run_bind, hwrite, hrename]
  rfl

/-- The text of the file of a store without entities. -/
def emptyText : String :=
  "HDQS\x01\x00\x00\x00<\x00\x00\x00\x00\x00\x00\x00\x00\x00\x00\x00\x00\x00\x00\x00\x14\x00\x00\x00\x00\x00\x00\x00"
    ++ "1970-01-01T00:00:00Z\x00\x00\x00\x00\x00\x00\x00\x00\x00\x00\x00\x00\x00\x00\x00\x00\x00\x00\x00\x00\x00\x00\x00\x00"

theorem encode_empty :
    SnapshotFile.encode (Store.empty {}).current = Bytes.ofText emptyText := by
  simp only [SnapshotFile.encode, SnapshotFile.frame, SnapshotFile.body, SnapshotFile.putText,
    Bytes.ofText_eq_flatMap]
  decide

end Session

end VectorQuery
