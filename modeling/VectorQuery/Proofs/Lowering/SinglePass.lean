/-
# Plans pass over their operations once

An operation of a plan reads outputs of operations before it, as many as its action takes, and
writes a variable of its own; the last one, and no other, collects (`Plan.singlePass_of_ofQuery`).
So each operation can run once, after those it reads, and nothing is written twice.
-/
import VectorQuery.Proofs.Lowering.Safety

namespace VectorQuery

/-- The operations of the plan can be passed over once, from the first to the last. -/
structure Plan.SinglePass (p : Plan) : Prop where
  written : ∀ (i : Nat) (op : Operation), p.operations[i]? = some op →
    op.output.text = "$v" ++ toString (i + 1)
  distinct : (p.operations.map (·.output.text)).Nodup
  bound : ∀ (i : Nat) (op : Operation), p.operations[i]? = some op →
    ∀ v ∈ op.inputs, ∃ j < i, ∃ o, p.operations[j]? = some o ∧ o.output = v
  takes : ∀ op ∈ p.operations, op.action.takes op.inputs.length = true
  collects : ∀ (i : Nat) (op : Operation), p.operations[i]? = some op →
    (op.action.collects = true ↔ i + 1 = p.operations.length)
  result : ∃ op, p.operations.getLast? = some op ∧ op.output = p.result

theorem Variable.text_numbered_inj {m n : Nat} (h : (numbered m).text = (numbered n).text) :
    m = n := by
  have hdigits : Number.digits m = Number.digits n := by
    have hlist := congrArg String.toList h
    simpa [Variable.text, Nat.repr, Number.digits] using hlist
  rw [← Text.decimalValue_digits m, hdigits, Text.decimalValue_digits]

theorem Numbered.nodup_text {ops : List Operation} (h : Numbered ops) :
    (ops.map (·.output.text)).Nodup := by
  have htext : ∀ v ∈ ops.map (·.output), ∀ w ∈ ops.map (·.output), v.text = w.text → v = w := by
    intro v hv w hw htext
    obtain ⟨i, hi⟩ := List.getElem?_of_mem hv
    obtain ⟨j, hj⟩ := List.getElem?_of_mem hw
    rw [List.getElem?_map, Option.map_eq_some_iff] at hi hj
    obtain ⟨op, hop, rfl⟩ := hi
    obtain ⟨op', hop', rfl⟩ := hj
    rw [h i op hop, h j op' hop'] at htext ⊢
    exact congrArg Variable.numbered (Variable.text_numbered_inj htext)
  have hmap := List.Nodup.map_on htext h.nodup
  rwa [List.map_map] at hmap

theorem inner_unmarked {ops : List Operation}
    (h : ∀ op ∈ ops.map Operation.unmarked, op.Inner) : ∀ op ∈ ops, op.Inner :=
  fun op hop => h op.unmarked (List.mem_map_of_mem hop)

namespace Plan

variable {s : Snapshot} {config : EngineConfig} {q : Query} {limit : Option Nat} {plan : Plan}

/-- Every plan of a query can be passed over once. -/
theorem singlePass_of_ofQuery (h : ofQuery s config q limit = .ok plan) : plan.SinglePass := by
  have hnumbered := numbered_of_ofQuery h
  obtain ⟨-, hfitting⟩ := fitting_of_ofQuery h
  obtain ⟨root, d, op, hlower, hops, haction, hinputs, hresult, -⟩ := lower_of_ofQuery h
  have hinner : ∀ o ∈ d.operations, o.Inner :=
    inner_unmarked ((Lowering.Adding.adds_run (P := Operation.Inner) _ root d hlower).2.2
      fun _ ho => nomatch ho)
  have hcollects : ∀ (i : Nat) (o : Operation), plan.operations[i]? = some o →
      (o.action.collects = true ↔ i = d.operations.length) := by
    rw [hops]
    refine forall_concat (fun i o ho => ?_) (iff_of_true (by rw [haction]; rfl) rfl)
    have hi : i < d.operations.length := (List.getElem?_eq_some_iff.1 ho).1
    have hno := (hinner o (List.mem_of_getElem? ho)).2
    exact iff_of_false (by rw [hno]; exact Bool.false_ne_true) hi.ne
  constructor
  case written =>
    intro i o ho
    rw [hnumbered i o ho]
    rfl
  case distinct => exact hnumbered.nodup_text
  case bound =>
    intro i o ho v hv
    obtain ⟨j, hj, rfl⟩ := (hfitting i o ho).bound v hv
    have hlength : j < plan.operations.length := hj.trans (List.getElem?_eq_some_iff.1 ho).1
    have hat := List.getElem?_eq_getElem hlength
    exact ⟨j, hj, _, hat, hnumbered j _ hat⟩
  case takes =>
    rw [hops]
    refine List.forall_mem_append.2 ⟨fun o ho => (hinner o ho).1, List.forall_mem_singleton.2 ?_⟩
    rw [haction, hinputs]
    rfl
  case collects =>
    intro i o ho
    rw [hcollects i o ho, hops, List.length_append, List.length_singleton]
    exact Nat.succ_inj.symm
  case result =>
    rw [hops]
    exact ⟨op, List.getLast?_concat, hresult⟩

theorem singlePass_of_ofQuery_search :
    ∃ q plan, Query.parse "similar_to(feature(\"cache\"), type=feature) AND effort < 5" = .ok q ∧
      ofQuery Engine.oneFeature {} q (some 3) = .ok plan ∧ plan.SinglePass := by
  have hplan : ((Query.parse "similar_to(feature(\"cache\"), type=feature) AND effort < 5").toOption
      |>.bind fun q => (ofQuery Engine.oneFeature {} q (some 3)).toOption).isSome = true := by
    decide +kernel
  obtain ⟨plan, hplan⟩ := Option.isSome_iff_exists.1 hplan
  obtain ⟨q, hq, hplan⟩ := Option.bind_eq_some_iff.1 hplan
  have hplan := ok_of_toOption hplan
  exact ⟨q, plan, ok_of_toOption hq, hplan, singlePass_of_ofQuery hplan⟩

end Plan

end VectorQuery
