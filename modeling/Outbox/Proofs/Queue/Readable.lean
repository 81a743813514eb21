import Outbox.Proofs.Operation.RoundTrip
import Outbox.Proofs.Queue.Payload

/-!
# Operations that are read back

A queue writes whatever it is given, as long as it fits into a frame. Reading, it puts the object
together again, and for an operation that fails for a time: that of a point of a series that is not finite
is written as null, which is no time, and the leap second at the end of the last year is written as a
moment of the year behind it, which is none. The version of such a record reads well, so recovery keeps it.

* `Operation.ofJson?_json_eq_none` is what goes wrong, and with `Operation.ofJson?_json` it is all that
  can.
-/

namespace Outbox

open Json (Value)

/-- A list is not read if one of its items is not. -/
theorem list?_map_eq_none {α : Type} {json : α → Value} {read? : Value → Option α} {as : List α} {a : α}
    (member : a ∈ as) (failed : read? (json a) = none) :
    Value.list? read? (.array (as.map json)) = none := by
  show (as.map json).mapM read? = none
  induction as with
  | nil => cases member
  | cons b as ih =>
    rw [List.map_cons, List.mapM_cons]
    rcases List.mem_cons.1 member with rfl | later
    · rw [failed]
      rfl
    · rw [ih later]
      cases read? (json b) <;> rfl

theorem timeOf?_timeJson_eq_none {t : Binary64} (h : ¬ t.IsFinite) : timeOf? (timeJson t) = none := by
  cases t with
  | finite x => exact absurd ⟨x, rfl⟩ h
  | _ => rfl

/-- A point whose time is not finite is not read back. -/
theorem Point.ofJson?_json_eq_none {α : Type} {json : α → Value} {read? : Value → Option α} {p : Point α}
    (undated : ¬ p.Dated) : ofJson? read? (p.json json) = none := by
  have filled : Json.fill? [.required "value", .default "step" .null, .required "ts"] (p.json json) =
      some [json p.value, optionJson Binary64.json p.step, timeJson p.time] := rfl
  rw [ofJson?, filled]
  simp only [timeOf?_timeJson_eq_none undated, Option.bind_eq_bind, Option.bind_none]
  cases read? (json p.value) with
  | none => rfl
  | some v => cases (optionJson Binary64.json p.step).option? Binary64.ofJson? <;> rfl

/-- The points of a series are not read back if one of them has no finite time. -/
theorem points?_eq_none {α : Type} {json : α → Value} {read? : Value → Option α} {ps : List (Point α)}
    (undated : ¬ ∀ p ∈ ps, p.Dated) :
    Value.list? (Point.ofJson? read?) (.array (ps.map (Point.json json))) = none := by
  obtain ⟨p, undated⟩ := Classical.not_forall.1 undated
  obtain ⟨member, undated⟩ := Classical.not_imp.1 undated
  exact list?_map_eq_none member (Point.ofJson?_json_eq_none undated)

/-- **An operation with a time that cannot be read is not read back.** -/
theorem Operation.ofJson?_json_eq_none {op : Operation} (undated : ¬ op.mutation.Dated) :
    ofJson? op.json = none := by
  rw [ofJson?_json_eq]
  obtain ⟨path, m⟩ := op
  cases m with
  | log ps =>
    cases ps <;> simp only [kind, Mutation.kind, ofBody?, Mutation.members] <;>
      rw [oneField?_object (by decide), points?_eq_none undated] <;> rfl
  | assign v =>
    cases v with
    | datetime t =>
      simp only [kind, Mutation.kind, ofBody?, Mutation.members]
      rw [oneField?_object (by decide), Moment.ofJson?_json_eq_none undated]
      rfl
    | _ => exact absurd trivial undated
  | _ => exact absurd trivial undated

end Outbox
