import DbBench.Library.Transition
import Mathlib.Data.List.Nodup

/-
This library compares concurrent calls with one sequential order of them. A call joins the log
in the step in which it takes effect.
-/

namespace Transition

variable {Thread Store Request Reply : Type}

/-- The calls of a log, one after another. -/
def requestsOf (requests : Thread → Request) (log : List (Thread × Reply)) : List Request :=
  log.map fun entry => requests entry.1

/-- The log names each call once, and its replies and the store are those of the reference that
answers the calls in the order of the log. -/
structure Serial (reference : Reference Store Request Reply) (requests : Thread → Request)
    (start : Store) (log : List (Thread × Reply)) (store : Store) : Prop where
  distinct : (log.map Prod.fst).Nodup
  replies : log.map Prod.snd = (follow reference start (requestsOf requests log)).1
  store : store = (follow reference start (requestsOf requests log)).2

/-- No call has taken effect yet. -/
theorem Serial.start (reference : Reference Store Request Reply) (requests : Thread → Request)
    (start : Store) : Serial reference requests start [] start :=
  ⟨List.nodup_nil, rfl, rfl⟩

/-- A call that is not in the log takes effect as the reference answers it. -/
theorem Serial.commit {reference : Reference Store Request Reply} {requests : Thread → Request}
    {start store : Store} {log : List (Thread × Reply)}
    (serial : Serial reference requests start log store) {thread : Thread}
    (pending : thread ∉ log.map Prod.fst) :
    Serial reference requests start
      (log ++ [(thread, (reference store (requests thread)).1)])
      (reference store (requests thread)).2 := by
  have longer : requestsOf requests (log ++ [(thread, (reference store (requests thread)).1)]) =
      requestsOf requests log ++ [requests thread] := by
    simp [requestsOf]
  refine ⟨?_, ?_, ?_⟩
  · rw [List.map_append, List.nodup_append']
    refine ⟨serial.distinct, List.nodup_singleton thread, fun other member same => ?_⟩
    have equal : other = thread := by simpa using same
    exact pending (equal ▸ member)
  · rw [longer, follow_snoc, List.map_append, serial.replies, ← serial.store]
    rfl
  · rw [longer, follow_snoc, ← serial.store]

/-- A run that records its inputs records the whole schedule. -/
theorem record_inputs {Input Output : Type} (inputs : List Input) (outputs : List Output)
    (before : List Input) (length : outputs.length = inputs.length) :
    record (fun past input _ => past ++ [input]) before inputs outputs = before ++ inputs := by
  induction inputs generalizing outputs before with
  | nil => simp [record]
  | cons input rest ih =>
      cases outputs with
      | nil => simp at length
      | cons output outputs =>
          rw [record, ih outputs (before ++ [input]) (by simpa using length)]
          simp

end Transition
