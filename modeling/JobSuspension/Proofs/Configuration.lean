import JobSuspension.Proofs.JsonText
import JobSuspension.TimerConfiguration

/-!
# Configurations survive the timer

A timer finds in its configuration what the request left there, whatever the text of the selector.

* `decode_encode`               reading inverts writing;
* `configuration_round_trip`    so no two configurations share a text, and what was read from any
                                text, in whatever form, is read again from the text written for it.
-/

namespace JobSuspension
namespace TimerConfiguration

open Json

theorem wellFormed_toJson (c : TimerConfiguration) : c.toJson.WellFormed :=
  ⟨trivial, trivial, trivial, trivial⟩

theorem ofJson?_toJson (c : TimerConfiguration) : ofJson? c.toJson = some c := by
  obtain ⟨⟨key, v⟩, includeJobs⟩ := c
  cases key <;> rfl

theorem decode_encode (c : TimerConfiguration) : decode c.encode = .ok c := by
  rw [decode, decode?, encode, read_text c.wellFormed_toJson, Option.bind_some, ofJson?_toJson]

/-- **Configurations survive their text.**  The text for a selector and a flag is that of the
configuration with both, and both are read from it again; different configurations have different
texts; and a text that is accepted says the same as the one written for what it says. -/
theorem configuration_round_trip :
    (∀ x includeJobs, forSelector x includeJobs = encode ⟨x, includeJobs⟩ ∧
      decode (forSelector x includeJobs) = .ok ⟨x, includeJobs⟩) ∧
    Function.Injective encode ∧
    ∀ text c, decode text = .ok c → decode c.encode = decode text := by
  refine ⟨fun x includeJobs => ⟨forSelector_eq_encode x includeJobs, ?_⟩, fun c c' h => ?_,
    fun text c h => ?_⟩
  · rw [forSelector_eq_encode, decode_encode]
  · have hdecode : decode c.encode = decode c'.encode := congrArg decode h
    rw [decode_encode, decode_encode] at hdecode
    exact Except.ok.inj hdecode
  · rw [decode_encode, h]

/-- the tag by its index, the members in another order, an escape that need not be one -/
theorem configuration_round_trip_reordered :
    let text :=
      "\x7b\"includeJobs\":true,\"note\":[1],\"by\":2,\"processDefinitionKey\":\"a\\u0022b\"\x7d"
    let c : TimerConfiguration := ⟨⟨.processDefinitionKey, "a\"b"⟩, true⟩
    decode text = .ok c ∧ c.encode ≠ text ∧ decode c.encode = decode text := by
  intro text c
  have hread : decode? text = some c := by
    simp +zetaDelta only
    decide +kernel
  have hdecode : decode text = .ok c := by rw [decode, hread]
  refine ⟨hdecode, ?_, configuration_round_trip.2.2 text c hdecode⟩
  simp +zetaDelta only
  decide +kernel

end TimerConfiguration
end JobSuspension
