import FrankenEngine.Marker.Stream

/-!
# What a marker's preimage determines

Every field of a marker can be read back from the bytes that are hashed, except
the reason of an emergency override, which is not among them.
-/

set_option autoImplicit false

namespace FrankenEngine.Marker

open Library List DecisionType

def FitsWord (text : String) : Prop := (utf8 text).length < 2 ^ 32

instance (text : String) : Decidable (FitsWord text) := inferInstanceAs (Decidable (_ < _))

def DecisionType.Bounded : DecisionType → Prop
  | .emergencyOverride overrideReason => FitsWord overrideReason
  | .guardrailTriggered guardrailId => FitsWord guardrailId
  | _ => True

def DecisionType.IsOverride : DecisionType → Prop
  | .emergencyOverride _ => True
  | _ => False

instance (decision : DecisionType) : Decidable decision.IsOverride :=
  match decision with
  | .emergencyOverride _ => isTrue trivial
  | .securityAction _ => isFalse id
  | .policyTransition _ => isFalse id
  | .revocationEvent _ => isFalse id
  | .epochTransition _ _ => isFalse id
  | .guardrailTriggered _ => isFalse id

structure TraceContext.Bounded (context : TraceContext) : Prop where
  traceparent : FitsWord context.traceparent
  tracestate : ∀ text ∈ context.tracestate, FitsWord text
  baggage : ∀ text ∈ context.baggage, FitsWord text

/-- Every string field is shorter than `2 ^ 32` bytes. -/
structure DecisionMarker.Bounded (marker : DecisionMarker) : Prop where
  decisionType : marker.decisionType.Bounded
  decisionId : FitsWord marker.decisionId
  policyId : ∀ text ∈ marker.policyId, FitsWord text
  correlationId : FitsWord marker.correlationId.raw
  traceContext : ∀ context ∈ marker.traceContext, context.Bounded
  principalId : ∀ text ∈ marker.principalId, FitsWord text
  zoneId : ∀ text ∈ marker.zoneId, FitsWord text
  errorCode : ∀ text ∈ marker.errorCode, FitsWord text
  actor : FitsWord marker.actor
  redactedSummary : FitsWord marker.redactedPayload.redactedSummary

private theorem dash_notMem_digits (value : Nat) : '-' ∉ Nat.toDigits 10 value := by
  intro member
  exact absurd (Nat.isDigit_of_mem_toDigits (by decide) (by decide) member) (by decide)

private theorem toDigits_injective {left right : Nat}
    (same : Nat.toDigits 10 left = Nat.toDigits 10 right) : left = right := by
  rw [← @Nat.ofDigitChars_ten_toDigits left, same, Nat.ofDigitChars_ten_toDigits]

theorem display_epochTransition (before after : UInt64) :
    (epochTransition before after).display =
      "epoch_transition:" ++ before.toNat.repr ++ "->" ++ after.toNat.repr := rfl

private theorem epochTransition_display_inj {before after before' after' : UInt64}
    (same : (epochTransition before after).display = (epochTransition before' after').display) :
    before = before' ∧ after = after' := by
  have arrow : "->".toList = ['-', '>'] := by simp
  have chars := congrArg String.toList same
  simp only [display_epochTransition, String.toList_append, Nat.toList_repr, append_assoc,
    arrow, cons_append, nil_append] at chars
  have digits := append_cancel_left chars
  have separate : '-' ∉ '>' :: Nat.toDigits 10 after.toNat := by
    rw [mem_cons, not_or]
    exact ⟨by decide, dash_notMem_digits _⟩
  obtain ⟨first, -, second⟩ :=
    (append_cons_inj_of_notMem (dash_notMem_digits _) separate).mp digits
  have last := (cons.inj second).2
  exact ⟨UInt64.toNat_inj.mp (toDigits_injective first),
    UInt64.toNat_inj.mp (toDigits_injective last)⟩

/-- The first two bytes of the text, which tell the kinds of decision apart. -/
private def kindCode : DecisionType → Bytes
  | .securityAction _ => [115, 101]
  | .policyTransition _ => [112, 111]
  | .revocationEvent _ => [114, 101]
  | .epochTransition _ _ => [101, 112]
  | .emergencyOverride _ => [101, 109]
  | .guardrailTriggered _ => [103, 117]

private theorem take_utf8_append {start : String} (rest : String) {code : Bytes}
    (found : (utf8 start).take 2 = code) (long : 2 ≤ (utf8 start).length) :
    (utf8 (start ++ rest)).take 2 = code := by
  rw [utf8_append, take_append_of_le_length long, found]

private theorem take_display (decision : DecisionType) :
    (utf8 decision.display).take 2 = kindCode decision := by
  have security : (utf8 "security_action:").take 2 = [115, 101] := by decide +kernel
  have policy : (utf8 "policy_transition:").take 2 = [112, 111] := by decide +kernel
  have revocation : (utf8 "revocation_event:").take 2 = [114, 101] := by decide +kernel
  have epoch : (utf8 "epoch_transition:").take 2 = [101, 112] := by decide +kernel
  have override : (utf8 "emergency_override").take 2 = [101, 109] := by decide +kernel
  have guardrail : (utf8 "guardrail_triggered:").take 2 = [103, 117] := by decide +kernel
  cases decision with
  | securityAction => exact take_utf8_append _ security (by decide +kernel)
  | policyTransition => exact take_utf8_append _ policy (by decide +kernel)
  | revocationEvent => exact take_utf8_append _ revocation (by decide +kernel)
  | epochTransition =>
    rw [display_epochTransition, String.append_assoc, String.append_assoc]
    exact take_utf8_append _ epoch (by decide +kernel)
  | emergencyOverride => exact override
  | guardrailTriggered => exact take_utf8_append _ guardrail (by decide +kernel)

variable {left right : DecisionType}

theorem display_inj (same : left.display = right.display) :
    left = right ∨ (left.IsOverride ∧ right.IsOverride) := by
  have codes : kindCode left = kindCode right := by
    rw [← take_display, ← take_display, same]
  cases left <;> cases right <;> first
    | exact absurd codes (by simp only [kindCode]; decide)
    | skip
  case securityAction.securityAction left right =>
    cases left <;> cases right <;> first
      | exact Or.inl rfl
      | exact absurd same (by decide +kernel)
  case policyTransition.policyTransition left right =>
    cases left <;> cases right <;> first
      | exact Or.inl rfl
      | exact absurd same (by decide +kernel)
  case revocationEvent.revocationEvent left right =>
    cases left <;> cases right <;> first
      | exact Or.inl rfl
      | exact absurd same (by decide +kernel)
  case epochTransition.epochTransition =>
    obtain ⟨rfl, rfl⟩ := epochTransition_display_inj same
    exact Or.inl rfl
  case emergencyOverride.emergencyOverride => exact Or.inr ⟨trivial, trivial⟩
  case guardrailTriggered.guardrailTriggered =>
    have ids := (String.append_right_inj _).mp same
    exact Or.inl (congrArg _ ids)

theorem display_eq_of_not_isOverride (plain : ¬ left.IsOverride)
    (same : left.display = right.display) : left = right := by
  rcases display_inj same with equal | overrides
  · exact equal
  · exact absurd overrides.1 plain

private theorem utf8_repr_length (value : UInt64) :
    0 < (utf8 value.toNat.repr).length ∧ (utf8 value.toNat.repr).length ≤ 80 := by
  have digits : value.toNat.repr.length ≤ 20 := by
    rw [Nat.length_repr_le_iff (by decide)]
    exact Nat.lt_of_lt_of_le value.toNat_lt (by decide)
  have bytes := utf8_length_le value.toNat.repr
  exact ⟨utf8_length_pos Nat.repr_ne_empty, by omega⟩

/-- Only an override is displayed in less than 20 bytes, and only a guardrail in many. -/
private theorem length_display (decision : DecisionType) :
    decision.IsOverride ∧ (utf8 decision.display).length = 18 ∨
      20 ≤ (utf8 decision.display).length ∧ ((utf8 decision.display).length < 200 ∨
        ∃ id, decision = .guardrailTriggered id ∧
          (utf8 decision.display).length = 20 + (utf8 id).length) := by
  cases decision with
  | securityAction action =>
    cases action <;> exact .inr ⟨by decide +kernel, .inl (by decide +kernel)⟩
  | policyTransition transition =>
    cases transition <;> exact .inr ⟨by decide +kernel, .inl (by decide +kernel)⟩
  | revocationEvent revocation =>
    cases revocation <;> exact .inr ⟨by decide +kernel, .inl (by decide +kernel)⟩
  | epochTransition before after =>
    have start : (utf8 "epoch_transition:").length = 17 := by decide +kernel
    have arrow : (utf8 "->").length = 2 := by decide +kernel
    have first := utf8_repr_length before
    have second := utf8_repr_length after
    rw [display_epochTransition]
    simp only [utf8_append, length_append]
    omega
  | emergencyOverride reason =>
    have whole : (utf8 "emergency_override").length = 18 := by decide +kernel
    exact .inl ⟨trivial, whole⟩
  | guardrailTriggered id =>
    have start : (utf8 "guardrail_triggered:").length = 20 := by decide +kernel
    have whole : (utf8 (guardrailTriggered id).display).length = 20 + (utf8 id).length := by
      rw [show (guardrailTriggered id).display = "guardrail_triggered:" ++ id from rfl,
        utf8_append, length_append, start]
    exact .inr ⟨by omega, .inr ⟨id, rfl, whole⟩⟩

/-- A wrapped length word cannot pass for a short one: the texts already differ
in their first byte. -/
private theorem display_length_eq {after after' : Bytes} (bounded : right.Bounded)
    (shorter : (utf8 left.display).length ≤ (utf8 right.display).length)
    (words : (utf8 left.display).length % 2 ^ 32 = (utf8 right.display).length % 2 ^ 32)
    (same : utf8 left.display ++ after = utf8 right.display ++ after') :
    (utf8 left.display).length = (utf8 right.display).length := by
  by_contra differ
  rcases length_display right with ⟨-, eighteen⟩ | ⟨-, few | ⟨id, rfl, whole⟩⟩
  · omega
  · omega
  have fits : (utf8 id).length < 2 ^ 32 := bounded
  rcases length_display left with ⟨short, eighteen⟩ | ⟨atLeast, -⟩
  · have codes := congrArg (take 2) same
    rw [take_append_of_le_length (by omega), take_append_of_le_length (by omega),
      take_display, take_display] at codes
    cases left <;> first
      | exact short.elim
      | exact absurd codes (by simp only [kindCode]; decide)
  · omega

theorem display_of_textFrame {after after' : Bytes} (leftBounded : left.Bounded)
    (rightBounded : right.Bounded)
    (same : textFrame left.display ++ after = textFrame right.display ++ after') :
    left.display = right.display ∧ after = after' := by
  rw [textFrame, textFrame, append_assoc, append_assoc] at same
  obtain ⟨words, rest⟩ := append_inj same (by rw [length_beBytes, length_beBytes])
  have residues := congrArg ofBeBytes words
  rw [ofBeBytes_beBytes, ofBeBytes_beBytes] at residues
  have lengths : (utf8 left.display).length = (utf8 right.display).length := by
    rcases Nat.le_total (utf8 left.display).length (utf8 right.display).length with le | ge
    · exact display_length_eq rightBounded le residues rest
    · exact (display_length_eq leftBounded ge residues.symm rest.symm).symm
  obtain ⟨texts, rest⟩ := append_inj rest lengths
  exact ⟨utf8_injective texts, rest⟩

theorem framed_traceFrame : Framed TraceContext.Bounded traceFrame := by
  intro left right after after' leftBounded rightBounded same
  simp only [traceFrame, append_assoc] at same
  obtain ⟨parents, same⟩ :=
    framed_textFrame leftBounded.traceparent rightBounded.traceparent same
  obtain ⟨states, same⟩ :=
    framed_optionFrame framed_textFrame leftBounded.tracestate rightBounded.tracestate same
  obtain ⟨baggage, rest⟩ :=
    framed_optionFrame framed_textFrame leftBounded.baggage rightBounded.baggage same
  cases left
  cases right
  cases parents
  cases states
  cases baggage
  exact ⟨rfl, rest⟩

/-- The preimage determines the marker up to its own hash and the parts of its
decision that are not displayed. -/
theorem markerPreimage_inj {left right : DecisionMarker} (leftBounded : left.Bounded)
    (rightBounded : right.Bounded) (same : markerPreimage left = markerPreimage right) :
    left.decisionType.display = right.decisionType.display ∧
      right = { left with
        markerHash := right.markerHash
        decisionType := right.decisionType } := by
  have same := congrArg (· ++ []) same
  simp only [markerPreimage, append_assoc] at same
  obtain ⟨ids, same⟩ := framed_wordFrame trivial trivial same
  obtain ⟨links, same⟩ := framed_bytes trivial trivial same
  obtain ⟨ticks, same⟩ := framed_wordFrame trivial trivial same
  obtain ⟨epochs, same⟩ := framed_wordFrame trivial trivial same
  obtain ⟨displays, same⟩ :=
    display_of_textFrame leftBounded.decisionType rightBounded.decisionType same
  obtain ⟨decisions, same⟩ :=
    framed_textFrame leftBounded.decisionId rightBounded.decisionId same
  obtain ⟨policies, same⟩ :=
    framed_optionFrame framed_textFrame leftBounded.policyId rightBounded.policyId same
  obtain ⟨correlations, same⟩ :=
    framed_textFrame leftBounded.correlationId rightBounded.correlationId same
  obtain ⟨traces, same⟩ :=
    framed_optionFrame framed_traceFrame leftBounded.traceContext rightBounded.traceContext same
  obtain ⟨principals, same⟩ :=
    framed_optionFrame framed_textFrame leftBounded.principalId rightBounded.principalId same
  obtain ⟨zones, same⟩ :=
    framed_optionFrame framed_textFrame leftBounded.zoneId rightBounded.zoneId same
  obtain ⟨errors, same⟩ :=
    framed_optionFrame framed_textFrame leftBounded.errorCode rightBounded.errorCode same
  obtain ⟨evidence, same⟩ := framed_bytes trivial trivial same
  obtain ⟨actors, same⟩ := framed_textFrame leftBounded.actor rightBounded.actor same
  obtain ⟨summaries, same⟩ :=
    framed_textFrame leftBounded.redactedSummary rightBounded.redactedSummary same
  obtain ⟨payloads, same⟩ := framed_bytes trivial trivial same
  obtain ⟨redactions, -⟩ := framed_boolFrame trivial trivial same
  refine ⟨displays, ?_⟩
  obtain ⟨_, _, _, _, _, _, _, _, ⟨_⟩, _, _, _, _, _, _, ⟨_, _, _⟩⟩ := left
  obtain ⟨_, _, _, _, _, _, _, _, ⟨_⟩, _, _, _, _, _, _, ⟨_, _, _⟩⟩ := right
  simp_all

theorem markerPreimage_congr {marker : DecisionMarker} {decision : DecisionType}
    (same : marker.decisionType.display = decision.display) :
    markerPreimage { marker with decisionType := decision } = markerPreimage marker := by
  simp only [markerPreimage, same]

theorem length_rollingPreimage (rolling : ContentHash) (markerId : UInt64) (hash : ContentHash) :
    (rollingPreimage rolling markerId hash).length = 72 := by
  simp only [rollingPreimage, length_append, wordFrame, length_beBytes, Digest.width]

theorem length_markerPreimage (marker : DecisionMarker) : 72 < (markerPreimage marker).length := by
  simp only [markerPreimage, length_append, wordFrame, length_beBytes, Digest.width, textFrame]
  omega

theorem rollingPreimage_ne_markerPreimage (rolling : ContentHash) (markerId : UInt64)
    (hash : ContentHash) (marker : DecisionMarker) :
    rollingPreimage rolling markerId hash ≠ markerPreimage marker := by
  intro same
  have lengths := length_markerPreimage marker
  rw [← same, length_rollingPreimage] at lengths
  exact absurd lengths (lt_irrefl _)

end FrankenEngine.Marker
