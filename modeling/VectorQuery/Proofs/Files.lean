/-
# What a directory holds after a change

A path leads to a file of the directory or nowhere, whatever the directory holds (`Path.Leads`).
Each change of a directory is felt at the names that its paths lead to, and at no other.
-/
import VectorQuery.Files.Directory
import VectorQuery.Proofs.Failure
import VectorQuery.Proofs.ScoredSet

namespace VectorQuery

/-- Carries out a computation on files: its result, and what the files are then. -/
def Files.run {W α : Type} (x : StateM W α) (files : W) : α × W := x files

@[simp] theorem Files.run_pure {W α : Type} (a : α) (files : W) :
    Files.run (pure a) files = (a, files) := rfl

@[simp] theorem Files.run_bind {W α β : Type} (x : StateM W α) (f : α → StateM W β) (files : W) :
    Files.run (x >>= f) files = Files.run (f (Files.run x files).1) (Files.run x files).2 := rfl

/-- Bytes can be added to the file of a path, whatever it and the other files hold. -/
def Files.CanAppend (W : Type) [Files (StateM W)] (path : String) : Prop :=
  ∀ (bytes : Bytes) (files : W), (Files.run (Files.append path bytes) files).1 = .ok ()

/-- A path leads to the file `name`: it holds no other name, and nothing in it asks for a
directory. -/
structure Path.Leads (path name : String) : Prop where
  names : Path.names path = [name]
  up : name ≠ ".."
  relative : Path.isAbsolute path = false
  slash : Path.hasSlash path = false
  dot : ['/', '.'].isSuffixOf path.toList = false

/-- A name is a path to itself. -/
theorem Path.leads_self {name : String} (hslash : '/' ∉ name.toList) (hempty : name ≠ "")
    (hdot : name ≠ ".") (hup : name ≠ "..") : Path.Leads name name := by
  have hnot : ∀ {cs : List Char}, '/' ∈ cs → cs.isSuffixOf name.toList = false := by
    intro cs hcs
    rw [Bool.eq_false_iff, Ne, List.isSuffixOf_iff_suffix]
    exact fun h => hslash (h.mem hcs)
  refine ⟨?_, hup, ?_, hnot List.mem_cons_self, hnot List.mem_cons_self⟩
  · rw [Path.names, List.splitOn_eq_singleton hslash]
    simp [hempty, hdot]
  · rw [isAbsolute, Bool.eq_false_iff, Ne, List.isPrefixOf_iff_prefix]
    exact fun h => hslash (h.mem List.mem_cons_self)

/-- The extension of a name goes behind the name without the extension that it has. -/
theorem Path.withExtension_self {name : String} (hslash : '/' ∉ name.toList) (hempty : name ≠ "")
    (hdot : name ≠ ".") (hup : name ≠ "..") (extension : String) :
    Path.withExtension name extension =
      .ofList (Path.splitName name.toList).1 ++ "." ++ extension := by
  have hname : Path.fileName? name = some name := by
    rw [Path.fileName?, (Path.leads_self hslash hempty hdot hup).names]
    exact if_neg hup
  have hend : Path.dropEnd name.toList.reverse = name.toList.reverse := by
    rw [← List.mem_reverse] at hslash
    unfold Path.dropEnd
    split
    · rename_i hcs
      exact absurd (hcs ▸ List.mem_cons_self) hslash
    · rename_i hcs
      exact absurd (hcs ▸ List.mem_cons_of_mem _ List.mem_cons_self) hslash
    · rfl
  have hnothing : name.toList.reverse.drop name.length = [] :=
    List.drop_of_length_le (Nat.le_of_eq (by rw [List.length_reverse, String.length_toList]))
  rw [Path.withExtension, hname]
  dsimp only
  rw [hend, hnothing, List.reverse_nil, List.nil_append]

namespace Directory

variable {d d' : Directory} {path name : String} {bytes : Bytes}

theorem resolve_of_leads (h : Path.Leads path name) (d : Directory) :
    d.resolve path = .ok name := by
  unfold resolve
  rw [h.names, h.slash, h.dot, h.relative]
  simp [h.up]

theorem leads_of_resolve (h : d.resolve path = .ok name) : Path.Leads path name := by
  unfold resolve at h
  dsimp only at h
  split at h
  · cases h
  · rename_i other hnames
    split at h
    · cases h
    split at h
    · cases h
    split at h
    · cases h
    · rename_i hup hrelative hslashed
      rw [Bool.or_eq_true, not_or, Bool.not_eq_true, Bool.not_eq_true] at hslashed
      cases h
      exact ⟨hnames, hup, Bool.eq_false_iff.2 hrelative, hslashed.1, hslashed.2⟩
  · split at h <;> cases h

theorem resolveNew_of_leads (h : Path.Leads path name) (d : Directory) (reason : FileError) :
    d.resolveNew reason path = .ok name := by
  have hfile : namesDirectory path = false := by
    unfold namesDirectory
    rw [h.names]
    dsimp only
    rw [h.slash, Bool.and_false]
  rw [resolveNew, if_neg (Bool.eq_false_iff.1 hfile), resolve_of_leads h]

theorem leads_of_resolveNew {reason : FileError} (h : d.resolveNew reason path = .ok name) :
    Path.Leads path name := by
  rw [resolveNew] at h
  split at h
  · cases h
  · exact leads_of_resolve h

/-- What the file of a name holds; a file that is missing holds nothing. -/
def content (d : Directory) (name : String) : Bytes := (d.files.get? name).getD []

theorem append_eq (h : Path.Leads path name) (d : Directory) (bytes : Bytes) :
    d.append path bytes = .ok ⟨d.files.insert name (d.content name ++ bytes)⟩ := by
  rw [append, resolveNew_of_leads h]
  rfl

theorem run_append (h : Path.Leads path name) (d : Directory) (bytes : Bytes) :
    Files.run (Files.append path bytes) d =
      (.ok (), (⟨d.files.insert name (d.content name ++ bytes)⟩ : Directory)) := by
  change change (·.append path bytes) d = _
  rw [change, append_eq h]

theorem canAppend_of_leads (h : Path.Leads path name) : Files.CanAppend Directory path :=
  fun bytes d => congrArg Prod.fst (run_append h d bytes)

theorem run_read (h : Path.Leads path name) (d : Directory) : Files.run (Files.read path) d =
    ((match d.files.get? name with
      | some bytes => .ok bytes
      | none => .error .missing), d) := by
  change (d.read path, d) = _
  rw [read, resolve_of_leads h]
  rfl

theorem run_write (h : Path.Leads path name) (d : Directory) (bytes : Bytes) :
    Files.run (Files.write path bytes) d =
      (.ok (), (⟨d.files.insert name bytes⟩ : Directory)) := by
  change change (·.write path bytes) d = _
  rw [change, write, resolveNew_of_leads h]
  rfl

theorem run_rename {new target : String} (hold : Path.Leads path name)
    (hnew : Path.Leads new target) (hbytes : d.files.get? name = some bytes) :
    Files.run (Files.rename path new) d =
      (.ok (), (⟨(d.files.filter fun n _ => n != name).insert target bytes⟩ : Directory)) := by
  have hread : d.read path = .ok bytes := by
    rw [read, resolve_of_leads hold]
    change (match d.files.get? name with | some bytes => _ | none => _) = _
    rw [hbytes]
  change change (·.rename path new) d = _
  rw [change, rename, resolve_of_leads hold, hread, resolveNew_of_leads hnew]
  rfl

theorem get?_insert_self (m : OrderedMap String Bytes) (name : String) (bytes : Bytes) :
    (m.insert name bytes).get? name = some bytes := by
  rw [OrderedMap.get?_insert, if_pos Std.ReflCmp.compare_self]

theorem content_insert (m : OrderedMap String Bytes) (name : String) (bytes : Bytes) :
    content ⟨m.insert name bytes⟩ name = bytes := by
  rw [content, get?_insert_self, Option.getD_some]

/-- A name that a file is not written to keeps what it had. -/
theorem get?_insert_of_ne {m : OrderedMap String Bytes} {other : String} (hne : other ≠ name) :
    (m.insert other bytes).get? name = m.get? name := by
  rw [OrderedMap.get?_insert, if_neg fun h => hne (Std.LawfulEqCmp.eq_of_compare h).symm]

theorem get?_of_write (h : d.write path bytes = .ok d') (hpath : ¬ Path.Leads path name) :
    d'.files.get? name = d.files.get? name := by
  obtain ⟨target, htarget, hd'⟩ := ok_of_bind h
  cases hd'
  refine get?_insert_of_ne ?_
  rintro rfl
  exact hpath (leads_of_resolveNew htarget)

theorem get?_of_rename {new : String} (h : d.rename path new = .ok d')
    (hold : ¬ Path.Leads path name) (hnew : ¬ Path.Leads new name) :
    d'.files.get? name = d.files.get? name := by
  obtain ⟨source, hsource, h⟩ := ok_of_bind h
  obtain ⟨moved, -, h⟩ := ok_of_bind h
  obtain ⟨target, htarget, hd'⟩ := ok_of_bind h
  cases hd'
  have hsource' : name ≠ source := by
    rintro rfl
    exact hold (leads_of_resolve hsource)
  have htarget' : target ≠ name := by
    rintro rfl
    exact hnew (leads_of_resolveNew htarget)
  rw [get?_insert_of_ne htarget', OrderedMap.get?_filter]
  cases d.files.get? name with
  | none => rfl
  | some held => simp [hsource']

/-! ## Changes from outside -/

/-- A computation on files leaves the file of a name as it is. -/
def Keeps {α : Type} (name : String) (x : StateM Directory α) : Prop :=
  ∀ d, (Files.run x d).2.files.get? name = d.files.get? name

theorem Keeps.pure {α : Type} (a : α) : Keeps name (Pure.pure a) := fun _ => rfl

theorem Keeps.bind {α β : Type} {x : StateM Directory α} {f : α → StateM Directory β}
    (hx : Keeps name x) (hf : ∀ a, Keeps name (f a)) : Keeps name (x >>= f) := by
  intro d
  rw [Files.run_bind]
  exact (hf _ _).trans (hx d)

theorem keeps_read (path : String) : Keeps name (Files.read path) := fun _ => rfl

theorem keeps_change {f : Directory → Except FileError Directory}
    (h : ∀ d d', f d = .ok d' → d'.files.get? name = d.files.get? name) :
    Keeps name (change f) := by
  intro d
  unfold Files.run change
  cases hf : f d with
  | error e => rfl
  | ok d' => exact h d d' hf

theorem keeps_write (hpath : ¬ Path.Leads path name) (bytes : Bytes) :
    Keeps name (Files.write path bytes) :=
  keeps_change fun _ _ h => get?_of_write h hpath

theorem keeps_rename {new : String} (hold : ¬ Path.Leads path name)
    (hnew : ¬ Path.Leads new name) : Keeps name (Files.rename path new) :=
  keeps_change fun _ _ h => get?_of_rename h hold hnew

end Directory

end VectorQuery
