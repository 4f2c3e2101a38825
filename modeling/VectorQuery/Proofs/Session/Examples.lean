/-
# Examples are queries

The queries to try on a snapshot are put together from names that it holds, as they are.  Where
these names can be written as they are (`Catalog.Writable`), every example is a query that has a plan
on the snapshot (`Session.answer_examples`).  A quote in an id already makes an example that is no
query.
-/
import VectorQuery.Proofs.Canonical.Arguments
import VectorQuery.Proofs.Lowering.Success
import VectorQuery.Proofs.Store.Loading
import VectorQuery.Proofs.Text
import VectorQuery.Session.Basic

namespace VectorQuery

/-! ## Texts between quotes -/

namespace Lexer

/-- Between double quotes the text is read to its end: a backslash takes the character behind it
along, and no other quote stands in the text. -/
def isEnclosed : List Char → Bool
  | [] => true
  | ['\\'] => false
  | '\\' :: _ :: cs => isEnclosed cs
  | c :: cs => c != '"' && isEnclosed cs

/-- What a text between double quotes stands for. -/
def unescaped : List Char → List Char
  | '\\' :: e :: cs => unescape e :: unescaped cs
  | c :: cs => c :: unescaped cs
  | [] => []

theorem stringBody_enclosed {cs : List Char} (h : isEnclosed cs = true) (rest : List Char) :
    stringBody '"' (cs ++ '"' :: rest) = some (unescaped cs, cs ++ ['"'], rest) := by
  fun_induction isEnclosed cs with
  | case1 => rfl
  | case2 => cases h
  | case3 e cs ih =>
      rw [List.cons_append, List.cons_append, stringBody, ih h]
      rfl
  | case4 c cs hlone hescape ih =>
      obtain ⟨hc, hcs⟩ := Bool.and_eq_true_iff.1 h
      have hslash : c ≠ '\\' := by
        intro hslash
        cases cs with
        | nil => exact hlone hslash rfl
        | cons e cs => exact hescape e cs hslash rfl
      have hvalue : unescaped (c :: cs) = c :: unescaped cs := by
        rw [unescaped]
        intro _ _ hslash'
        exact absurd hslash' hslash
      rw [List.cons_append, stringBody_cons _ (by simpa using hc) hslash, ih hcs, hvalue]
      rfl

example : String.ofList (unescaped "a\\\"b".toList) = "a\"b" := by
  decide +kernel

/-- A text that is enclosed as it is. -/
theorem names_enclosed {cs : List Char} (h : isEnclosed cs = true) :
    Names ('"' :: (cs ++ ['"'])) (.string (.ofList (unescaped cs))) := by
  intro rest w hrest hw
  have hscan : scan (Context.call = .call) '"' (cs ++ '"' :: rest)
      = .ok ⟨.string (.ofList (unescaped cs)), '"' :: (cs ++ ['"']), rest⟩ := by
    rw [scan, if_pos (.inl rfl), scanString, stringBody_enclosed h]
  have htext : '"' :: (cs ++ ['"']) ++ rest = '"' :: (cs ++ '"' :: rest) := by simp
  rw [htext]
  exact Spells.cons (by decide) hscan (hw .other (by decide))

end Lexer

/-! ## Examples read -/

/-- A search near a lookup whose name is written in some way. -/
theorem parse_similar {t s text : String} {name : List Char} {token : Token}
    {distance : Option Double} {topK : Option Nat} (ht : IsIdentifier t)
    (hname : Lexer.Names name token) (htoken : Grammar.LookupName token s)
    (hd : ∀ d ∈ distance, d.isFinite = true ∧ 0.0 ≤ d ∧ d ≤ 2.0)
    (hk : ∀ k ∈ topK, 1 ≤ k ∧ k ≤ 2 ^ 32 - 1)
    (htext : text.toList =
      Query.similarChars (t.toList ++ '(' :: (name ++ [')'])) distance topK none) :
    Query.parse text = .ok (.similar (.lookup t s false) distance topK none) := by
  have hlookup : ∀ ⦃rest : List Char⦄ ⦃w : List Token⦄, Lexer.Follows rest w →
      Lexer.Spells .other (t.toList ++ '(' :: (name ++ [')']) ++ rest)
        ([.identifier t, .leftParen, token, .rightParen] ++ w) := by
    intro rest w h
    have hother : Lexer.Context.other ≠ .call := by decide
    have hspells := Lexer.spells_lookup hother ht hname false h.spells
    simpa using hspells
  have hspells : Lexer.Spells .other (Query.similarChars _ distance topK none ++ []) _ :=
    Lexer.spells_similar hlookup (fun d hmem => Double.isDefined_of_isFinite (hd d hmem).1)
      Lexer.follows_nil
  have htarget := derives_whole (.lookup t false htoken)
  refine parse_of_spells ?_ (derives_whole (.similar htarget (parameters_tokens none hd hk)))
  rw [List.append_nil] at hspells
  rw [htext]
  simpa using hspells

/-- An arrow of a relation between all of two types. -/
theorem parse_arrow {source relation target : String} (hs : IsIdentifier source)
    (hr : Lexer.IsRelation relation.toList) (ht : IsIdentifier target) :
    Query.parse (source ++ "(\"*\") -[" ++ relation ++ "]-> " ++ target ++ "(\"*\")") =
      .ok (.relation (.lookup source "*" false) (some relation) (.lookup target "*" false)) := by
  have hother : Lexer.Context.other ≠ .call := by decide
  have hblank : Text.isBlank ' ' = true := by decide
  have hright := Lexer.spells_lookup hother ht (Lexer.names_quote "*") false fun context _ =>
    Lexer.spells_nil context
  have hspells := Lexer.spells_lookup hother hs (Lexer.names_quote "*") false fun context _ =>
    (Lexer.Spells.namedArrow context hr (hright.blank hblank)).blank hblank
  have hderives := derives_disjunction (derives_conjunction (.plainNegation (.arrow
    (.plainRelational (derives_analogy (.lookup source false (.string "*")))) (.named relation)
    (derives_analogy (.lookup target false (.string "*"))))))
  have hstar : quote "*" = ['"', '*', '"'] := by decide
  refine parse_of_spells ?_ hderives
  simpa [hstar] using hspells

/-- The greatest amount of one field within a budget of another. -/
def budgeted (first second : String) (limit : Double) : Query :=
  .optimize .maximize ⟨[⟨first, Quantity.one⟩]⟩ [⟨second, .le, .number limit⟩]

theorem chars_budgeted (first second : String) (limit : Double) :
    (budgeted first second limit).chars = String.toList
      ("maximize(" ++ first ++ ") subject_to(" ++ second ++ " <= " ++ limit.text ++ ")") := by
  have hsign : isNegative (Quantity.one : Double) = false := by decide
  have hweight : Quantity.compare? (Quantity.magnitude (Quantity.one : Double)) Quantity.one =
      some .eq := by decide
  have hobjective : Objective.chars ⟨[⟨first, (Quantity.one : Double)⟩]⟩ = first.toList := by
    simp [Objective.chars, Term.unsigned, Term.joined, hsign, hweight]
  rw [budgeted, Query.chars, Query.optimizeChars, hobjective]
  simp [Query.constraintChars, Comparison.chars, Scalar.literal, Direction.word, CompareOp.symbol,
    Scalar.shown]
  rfl

theorem parse_budgeted {first second : String} {limit : Double} (hfirst : IsIdentifier first)
    (hsecond : IsIdentifier second) (hlimit : limit.isFinite = true) :
    Query.parse ("maximize(" ++ first ++ ") subject_to(" ++ second ++ " <= " ++ limit.text ++ ")") =
      .ok (budgeted first second limit) := by
  have hone : (Quantity.one : Double).isFinite = true := by decide
  have hwell : (budgeted first second limit).WellFormed (·.isFinite = true) := by
    refine .optimize _ (List.cons_ne_nil _ _) (List.forall_mem_singleton.2 ⟨hfirst, hone⟩)
      (List.forall_mem_singleton.2 ⟨hsecond, ?_⟩)
    rintro x ⟨⟩
    exact hlimit
  have hspells := Lexer.cuts_of_wellFormed (hwell.mono fun _ => Double.isDefined_of_isFinite)
    Lexer.follows_nil
  refine parse_of_spells ?_ (derives_whole (derives_tokens hwell))
  rwa [List.append_nil, chars_budgeted] at hspells

/-! ## Lines -/

theorem Lexer.IsWord.newline_notMem {word : List Char} (h : IsWord word) : '\n' ∉ word :=
  fun hmem => absurd (h.continues _ hmem) (by decide)

theorem Lexer.Joins.forall_mem {part : Char → Bool} {cs : List Char} (h : Joins part cs) :
    ∀ c ∈ cs, part c = true ∨ c = '-' := by
  induction cs with
  | nil => exact List.forall_mem_nil _
  | cons c cs ih => exact List.forall_mem_cons.2 ⟨h.1.imp_right And.left, ih h.2⟩

theorem Lexer.IsRelation.newline_notMem {name : List Char} (h : IsRelation name) :
    '\n' ∉ name :=
  fun hmem => absurd (h.hyphened.joins.forall_mem _ hmem) (by decide)

theorem Lexer.Numeral.Plain.newline_notMem {n : Numeral} (h : n.Plain) : '\n' ∉ n.chars := by
  have hdigits : ∀ ds : List Char, (∀ c ∈ ds, c.isDigit = true) → '\n' ∉ ds :=
    fun ds hds hmem => absurd (hds _ hmem) (by decide)
  rw [Numeral.chars, h.mark, h.exponent, List.append_nil, List.append_nil, List.mem_append, not_or]
  refine ⟨hdigits _ h.isDigit_whole, ?_⟩
  split
  · exact List.not_mem_nil
  · simpa using hdigits _ h.isDigit_fraction

theorem Double.newline_notMem_text {x : Double} (h : x.isFinite = true) :
    '\n' ∉ x.text.toList := by
  obtain ⟨y, hy, hx | hx⟩ := x.eq_or_eq_neg
  · rw [hx] at h ⊢
    obtain ⟨n, hn, htext, -⟩ := exists_numeral hy h
    rw [htext]
    exact hn.newline_notMem
  · rw [hx, Double.isFinite_neg] at h
    obtain ⟨n, hn, htext, -⟩ := exists_numeral hy h
    rw [hx, text_neg hy (isDefined_of_isFinite h), htext]
    simpa using hn.newline_notMem

/-- The text stands on one line, without blanks at its ends. -/
structure Text.IsLine (s : List Char) : Prop extends IsTrimmed s where
  ne_nil : s ≠ []
  newline : '\n' ∉ s

/-- A word before what ends with a closing parenthesis. -/
theorem Text.isLine_of_isWord {word cs : List Char} (hw : Lexer.IsWord word) (h : '\n' ∉ cs) :
    IsLine (word ++ (cs ++ [')'])) where
  head := by
    obtain ⟨c, _, rfl, hc⟩ := hw.head
    rintro d ⟨⟩
    exact Lexer.not_isBlank_of_startsWord hc
  last := by
    rw [← List.append_assoc, List.getLast?_concat]
    rintro d ⟨⟩
    decide
  ne_nil := by simp
  newline := by simp [hw.newline_notMem, h]

/-! ## Examples of a snapshot -/

/-- The text is a query that has a plan on the current snapshot. -/
def Engine.Accepts (e : Engine) (text : String) : Prop :=
  ∃ q, Query.parse text = .ok q ∧ ∀ limit, ∃ p, e.plan e.store.current q limit = .ok p

namespace Catalog

/-- The fields that have numbers, with their statistics. -/
def numericFields (s : Snapshot) : List (String × FieldStats Double) :=
  s.fields.entries.filter fun (_, f) => f.least.isSome

/-- The names that examples are made of can be written as they are: types, fields and the relation
are words, and the id is read to its end between quotes and on one line.  The relation joins types
that have entities.  The field to maximize is not built in, and the greatest value is finite. -/
structure Writable (s : Snapshot) : Prop where
  entity : ∀ e, s.entities.toList.head? = some e →
    IsIdentifier e.entityType ∧ Lexer.isEnclosed e.id.toList = true ∧ '\n' ∉ e.id.toList
  relation : ∀ key, s.relations.keys.head? = some key →
    IsIdentifier key.sourceType ∧ Lexer.IsRelation key.relation.toList ∧ IsIdentifier key.targetType
  ends : ∀ key, s.relations.keys.head? = some key →
    s.hasType key.sourceType = true ∧ s.hasType key.targetType = true
  fields : ∀ first second rest, numericFields s = first :: second :: rest →
    IsIdentifier first.1 ∧ isBuiltinField first.1 = false ∧ IsIdentifier second.1 ∧
      (second.2.greatest.getD 10).isFinite = true

variable {e : Engine}

theorem accepts_of_parse {text : String} {q : Query} (hparse : Query.parse text = .ok q)
    (hplan : ∀ limit, ∃ p, Plan.ofQuery e.store.current e.config q limit = .ok p) :
    e.Accepts text := by
  refine ⟨q, hparse, fun limit => ?_⟩
  obtain ⟨p, hp⟩ := hplan limit
  exact ⟨p, by rw [Engine.plan, hp]; rfl⟩

theorem chars_nearby {d : Double} (h : d.text = "0.3") (target : List Char) :
    Query.similarChars target (some d) (some 5) none =
      "similar_to(".toList ++ target ++ ", distance=0.3, top_k=5)".toList := by
  have hfive : toString (5 : Nat) = "5" := by decide
  unfold Query.similarChars Query.parameterChars
  rw [Option.map_some, Option.map_some, Option.map_some, Option.map_some, h, hfive,
    Option.map_none, Option.map_none]
  simp only [Option.getD_some, Option.getD_none, List.append_assoc, List.cons_append,
    List.nil_append]
  rfl

section

variable {t s text : String} {name : List Char} {token : Token}

/-- A lookup of a known type, whose name is written in some way. -/
theorem accepts_lookup (hknown : e.store.current.hasType t = true) (ht : IsIdentifier t)
    (hname : Lexer.Names name token) (htoken : Grammar.LookupName token s) (hline : '\n' ∉ name)
    (fuzzy : Bool)
    (htext : text.toList = t.toList ++ '(' :: (name ++ if fuzzy then ['~', ')'] else [')'])) :
    e.Accepts text ∧ Text.IsLine text.toList := by
  refine ⟨accepts_of_parse (parse_lookup fuzzy ht hname htoken htext)
    (Plan.exists_lookup hknown s fuzzy), ?_⟩
  have hcs : '\n' ∉ '(' :: (name ++ if fuzzy then ['~'] else []) := by
    cases fuzzy <;> simp [hline]
  have hisLine := Text.isLine_of_isWord ht.word hcs
  rw [htext]
  cases fuzzy <;> simpa using hisLine

/-- The search near such a lookup. -/
theorem accepts_similar (hknown : e.store.current.hasType t = true) (ht : IsIdentifier t)
    (hname : Lexer.Names name token) (htoken : Grammar.LookupName token s) (hline : '\n' ∉ name)
    (htext : text.toList = t.toList ++ '(' :: (name ++ [')'])) :
    e.Accepts ("similar_to(" ++ text ++ ", distance=0.3, top_k=5)") ∧
      Text.IsLine ("similar_to(" ++ text ++ ", distance=0.3, top_k=5)").toList := by
  have hdistance : (0.3 : Double).isFinite = true ∧ (0.0 : Double) ≤ 0.3 ∧
      (0.3 : Double) ≤ 2.0 := by decide
  have hrange : (0 : Double) ≤ 0.3 ∧ (0.3 : Double) ≤ 2 := by decide
  have hshown : (0.3 : Double).text = "0.3" := by decide
  have hparse : Query.parse ("similar_to(" ++ text ++ ", distance=0.3, top_k=5)") =
      .ok (.similar (.lookup t s false) (some 0.3) (some 5) none) := by
    refine parse_similar ht hname htoken ?_ ?_ ?_
    · rintro d ⟨⟩
      exact hdistance
    · rintro k ⟨⟩
      decide
    · rw [chars_nearby hshown, String.toList_append, String.toList_append, htext]
  obtain ⟨p, hp⟩ : ∃ p, Plan.ofQuery e.store.current e.config (.lookup t s false) none = .ok p :=
    Plan.exists_lookup hknown s false none
  refine ⟨accepts_of_parse hparse (Plan.exists_similar hp (some 0.3) hrange (some 5)), ?_⟩
  have hcs : '\n' ∉ '(' :: (t.toList ++ '(' :: name ++ "), distance=0.3, top_k=5".toList) := by
    simp [ht.word.newline_notMem, hline]
  have hisLine := Text.isLine_of_isWord Lexer.isWord_similarTo hcs
  simpa [htext] using hisLine

end

/-- Lookups of an entity of a known type, and the search near it. -/
theorem accepts_lookups {entity : Entity Double}
    (hknown : e.store.current.hasType entity.entityType = true)
    (ht : IsIdentifier entity.entityType) (hid : Lexer.isEnclosed entity.id.toList = true)
    (hline : '\n' ∉ entity.id.toList) :
    ∀ x ∈ lookups entity, e.Accepts x ∧ Text.IsLine x.toList := by
  have hnames := Lexer.names_enclosed hid
  have htoken := Grammar.LookupName.string (.ofList (Lexer.unescaped entity.id.toList))
  have hquoted : '\n' ∉ '"' :: (entity.id.toList ++ ['"']) := by simp [hline]
  have hstar : quote "*" = ['"', '*', '"'] := by decide
  unfold lookups
  rw [List.forall_mem_cons, List.forall_mem_cons, List.forall_mem_cons, List.forall_mem_singleton]
  refine ⟨accepts_lookup hknown ht hnames htoken hquoted false ?_,
    accepts_lookup hknown ht (Lexer.names_quote "*") (.string "*") (by decide) false ?_,
    accepts_lookup hknown ht hnames htoken hquoted true ?_,
    accepts_similar hknown ht hnames htoken hquoted ?_⟩
  · simp
  · simp [hstar]
  · simp
  · simp

theorem accepts_relationQuery (hw : Writable e.store.current) :
    ∀ x ∈ relationQuery e.store.current, e.Accepts x ∧ Text.IsLine x.toList := by
  unfold relationQuery
  split
  · exact List.forall_mem_nil _
  · rename_i key keys hkeys
    have hhead : e.store.current.relations.keys.head? = some key := by rw [hkeys]; rfl
    have hmem : key ∈ e.store.current.relations.keys := List.mem_of_mem_head? hhead
    obtain ⟨hs, hr, ht⟩ := hw.relation key hhead
    obtain ⟨hsource, htarget⟩ := hw.ends key hhead
    refine List.forall_mem_singleton.2 ⟨accepts_of_parse (parse_arrow hs hr ht) fun limit =>
      Plan.exists_relation hmem hs ht hsource htarget "*" limit, ?_⟩
    have hcs : '\n' ∉ "(\"*\") -[".toList ++ key.relation.toList ++ "]-> ".toList
        ++ key.targetType.toList ++ "(\"*\"".toList := by
      simp [hr.newline_notMem, ht.word.newline_notMem]
    simpa using Text.isLine_of_isWord hs.word hcs

theorem contains_of_mem_numericFields {s : Snapshot} {field : String × FieldStats Double}
    (h : field ∈ numericFields s) : s.fields.contains field.1 = true := by
  have hmem : field.1 ∈ s.fields.keys := List.mem_map_of_mem (List.mem_of_mem_filter h)
  exact (OrderedMap.mem_keys_iff_contains _ _).1 hmem

theorem accepts_budgetQuery (hw : Writable e.store.current) :
    ∀ x ∈ budgetQuery e.store.current, e.Accepts x ∧ Text.IsLine x.toList := by
  unfold budgetQuery
  split
  · rename_i first stats second f rest hfields
    obtain ⟨hfirst, hbuiltin, hsecond, hlimit⟩ := hw.fields _ _ _ hfields
    have hknown : ∀ field ∈ [(first, stats), (second, f)],
        e.store.current.fields.contains field.1 = true := by
      intro field hmem
      refine contains_of_mem_numericFields ?_
      rw [numericFields, hfields]
      exact List.mem_append_left rest hmem
    have hone : (Quantity.one : Double).isFinite = true := by decide
    refine List.forall_mem_singleton.2
      ⟨accepts_of_parse (parse_budgeted hfirst hsecond hlimit) (Plan.exists_optimize ?_ ?_), ?_⟩
    · exact List.forall_mem_singleton.2 ⟨hbuiltin, hknown _ List.mem_cons_self, hone⟩
    · exact List.forall_mem_singleton.2
        (hknown _ (List.mem_cons_of_mem _ List.mem_cons_self))
    · have hcs : '\n' ∉ '(' :: (first.toList ++ ") subject_to(".toList ++ second.toList
          ++ " <= ".toList ++ (f.greatest.getD 10).text.toList) := by
        simp [hfirst.word.newline_notMem, hsecond.word.newline_notMem,
          Double.newline_notMem_text hlimit]
      have hmaximize : Lexer.IsWord "maximize".toList :=
        Lexer.isWord_of_all (by decide) (by decide)
      simpa using Text.isLine_of_isWord hmaximize hcs
  · exact List.forall_mem_nil _

/-- Every example of a snapshot with names that can be written is a query with a plan, on a line of
its own. -/
theorem accepts_examples (hmade : e.store.current.Made) (hne : e.store.current.size ≠ 0)
    (hw : Writable e.store.current) :
    ∃ queries : List String, examples e.store.current = queries.map ("  " ++ ·) ∧
      4 ≤ queries.length ∧ ∀ x ∈ queries, e.Accepts x ∧ Text.IsLine x.toList := by
  obtain ⟨entity, hhead⟩ : ∃ entity, e.store.current.entities.toList.head? = some entity := by
    cases hentities : e.store.current.entities.toList with
    | nil => exact absurd (congrArg List.length hentities) (by simpa [Snapshot.size] using hne)
    | cons entity entities => exact ⟨entity, rfl⟩
  obtain ⟨ht, hid, hline⟩ := hw.entity entity hhead
  have hknown : e.store.current.hasType entity.entityType = true :=
    (hmade.hasType_iff entity.entityType).2 ⟨entity, List.mem_of_mem_head? hhead, rfl⟩
  refine ⟨lookups entity ++ relationQuery e.store.current ++ budgetQuery e.store.current,
    ?_, ?_, ?_⟩
  · rw [examples, hhead]
  · rw [List.length_append, List.length_append]
    have hfour : (lookups entity).length = 4 := rfl
    omega
  · rw [List.forall_mem_append, List.forall_mem_append]
    exact ⟨⟨accepts_lookups hknown ht hid hline, accepts_relationQuery hw⟩, accepts_budgetQuery hw⟩

end Catalog

/-- **Examples.** Every line that answers a request for examples, on a store with entities, is but
for the blanks around it a query with a plan on the current snapshot, if the names that examples are
made of can be written as they are. -/
theorem Session.answer_examples {s : Session} (hmade : s.engine.store.current.Made)
    (hne : s.engine.store.current.size ≠ 0) (hw : Catalog.Writable s.engine.store.current) :
    ∃ text, s.answer .examples = .ok text ∧ 4 ≤ (Text.lines text).length ∧
      ∀ line ∈ Text.lines text, s.engine.Accepts (.ofList (Text.trimBlanks line.toList)) := by
  obtain ⟨queries, hexamples, hlength, hqueries⟩ := Catalog.accepts_examples hmade hne hw
  have hlines : Text.lines (Text.ofLines (queries.map ("  " ++ ·))) = queries.map ("  " ++ ·) := by
    refine Text.lines_ofLines (List.forall_mem_map.2 fun x hx => ?_)
      (List.forall_mem_map.2 fun x hx c hc => ?_)
    · have hbreak := (hqueries x hx).2.newline
      simpa using hbreak
    · obtain ⟨d, hd⟩ := Option.ne_none_iff_exists'.1
        (mt List.getLast?_eq_none_iff.1 (hqueries x hx).2.ne_nil)
      rw [String.toList_append, List.getLast?_append, hd] at hc
      cases hc
      exact (hqueries x hx).2.last _ hd
  refine ⟨_, rfl, ?_⟩
  rw [hexamples, hlines, List.length_map]
  refine ⟨hlength, List.forall_mem_map.2 fun x hx => ?_⟩
  obtain ⟨haccepts, hline⟩ := hqueries x hx
  have hgap : ∀ c ∈ "  ".toList, Text.isBlank c = true :=
    List.forall_mem_cons.2 ⟨by decide, List.forall_mem_singleton.2 (by decide)⟩
  have htrimmed : Text.trimBlanks ("  " ++ x).toList = x.toList := by
    rw [String.toList_append, Text.trimBlanks_append hgap]
    exact Text.trimBlanks_of_isTrimmed hline.toIsTrimmed
  rw [htrimmed, String.ofList_toList]
  exact haccepts

/-- A load of a feature with an escaped quote in its id, a command and a relation between them. -/
def bestFeature : Load where
  entities :=
    [⟨"feature", "the \\\"best\\\"", "", [1], [],
        .ofList [("coverage", .number 5), ("effort", .number (-3))]⟩,
      ⟨"command", "lint", "", [1], [], .empty⟩]
  relations := [⟨⟨"feature", "part-of", "command"⟩, .offset [0]⟩]
  now := ⟨0, 0⟩

theorem Session.answer_examples_best :
    let s : Session := .new (.new ((Store.empty {}).after bestFeature) {}) none false
    s.engine.store.current.Made ∧ s.engine.store.current.size ≠ 0 ∧
      Catalog.Writable s.engine.store.current ∧
        ∃ text, s.answer .examples = .ok text ∧ 4 ≤ (Text.lines text).length ∧
          ∀ line ∈ Text.lines text, s.engine.Accepts (.ofList (Text.trimBlanks line.toList)) := by
  intro s
  have hmade : s.engine.store.current.Made := Store.made_after .empty bestFeature
  have hne : s.engine.store.current.size ≠ 0 := by decide +kernel
  have hfeature : IsIdentifier "feature" := ⟨Lexer.isWord_of_all (by decide) (by decide), by decide⟩
  have hcommand : IsIdentifier "command" := ⟨Lexer.isWord_of_all (by decide) (by decide), by decide⟩
  have hcoverage : IsIdentifier "coverage" :=
    ⟨Lexer.isWord_of_all (by decide) (by decide), by decide⟩
  have heffort : IsIdentifier "effort" := ⟨Lexer.isWord_of_all (by decide) (by decide), by decide⟩
  have hpart : Lexer.IsRelation "part-of".toList :=
    ⟨⟨'p', _, rfl, by decide⟩, by simp [Lexer.Hyphened]; decide⟩
  have hhead : s.engine.store.current.entities.toList.head?.map (fun e => (e.entityType, e.id)) =
      some ("feature", "the \\\"best\\\"") := by decide +kernel
  have hkeys : s.engine.store.current.relations.keys = [⟨"feature", "part-of", "command"⟩] := by
    decide +kernel
  have hnumeric : (Catalog.numericFields s.engine.store.current).map
      (fun field => (field.1, (field.2.greatest.getD 10).isFinite)) =
        [("coverage", true), ("effort", true)] := by decide +kernel
  have hw : Catalog.Writable s.engine.store.current := by
    refine ⟨fun e he => ?_, fun key hkey => ?_, fun key hkey => ?_, fun first second rest h => ?_⟩
    · rw [he] at hhead
      obtain ⟨htype, hid⟩ := Prod.mk.inj (Option.some.inj hhead)
      rw [htype, hid]
      exact ⟨hfeature, by decide, by decide⟩
    · rw [hkeys] at hkey
      cases hkey
      exact ⟨hfeature, hpart, hcommand⟩
    · rw [hkeys] at hkey
      cases hkey
      decide +kernel
    · rw [h] at hnumeric
      obtain ⟨hfirst, hrest⟩ := List.cons.inj hnumeric
      obtain ⟨hsecond, -⟩ := List.cons.inj hrest
      obtain ⟨hfirst, -⟩ := Prod.mk.inj hfirst
      obtain ⟨hsecond, hfinite⟩ := Prod.mk.inj hsecond
      rw [hfirst, hsecond]
      exact ⟨hcoverage, by decide, heffort, hfinite⟩
  exact ⟨hmade, hne, hw, answer_examples hmade hne hw⟩

/-- A load of a feature with quotes in its id. -/
def quotedFeature : Load := ⟨[⟨"feature", "the \"best\"", "", [1], [], .empty⟩], [], ⟨0, 0⟩⟩

/-- A quote in an id makes an example that is no query. -/
theorem Session.answer_examples_quoted :
    let s : Session := .new (.new ((Store.empty {}).after quotedFeature) {}) none false
    s.engine.store.current.Made ∧ s.engine.store.current.size ≠ 0 ∧
      ∃ text, s.answer .examples = .ok text ∧ ∃ line ∈ Text.lines text,
        ∀ q, Query.parse (.ofList (Text.trimBlanks line.toList)) ≠ .ok q := by
  intro s
  have hmade : s.engine.store.current.Made := Store.made_after .empty quotedFeature
  have hne : s.engine.store.current.size ≠ 0 := by decide +kernel
  have hline : "  feature(\"the \"best\"\")" ∈
      Text.lines (Text.ofLines (Catalog.examples s.engine.store.current)) := by decide +kernel
  have hrefused : (Query.parse (.ofList
      (Text.trimBlanks "  feature(\"the \"best\"\")".toList))).isOk = false := by decide +kernel
  refine ⟨hmade, hne, _, rfl, _, hline, fun q hq => ?_⟩
  rw [hq] at hrefused
  cases hrefused

end VectorQuery
