import FrankenEngine.Authority.Token

/-!
# What an accepted delegation chain confers

Every link is judged against the link behind it. Going back from the leaf, the
capabilities only grow, so the leaf's belong to every link. The audience of a
link names the next issuer unless the link has no audience at all, which the
token verifier accepts from anyone.
-/

set_option autoImplicit false

namespace FrankenEngine.Authority

open Library List OrderedMap

variable {hashes : Hashes} {leafDelegate : PrincipalId} {context : DelegationVerificationContext}
  {oracle : RevocationOracle} {expectedZone : String}

variable {token : CapabilityToken} {index : Nat} {rest links : List CapabilityToken}

theorem verifyWindow_ok {ctx : VerificationContext} (accepted : verifyWindow token ctx = .ok ()) :
    token.nbf ≤ ctx.currentTick ∧ ctx.currentTick ≤ token.expiry := by
  obtain ⟨started, accepted⟩ := else_ok_iff.mp accepted
  obtain ⟨unexpired, -⟩ := else_ok_iff.mp accepted
  exact ⟨UInt64.not_lt.mp started, UInt64.not_lt.mp unexpired⟩

theorem verifyAudience_ok {presenter : PrincipalId}
    (accepted : verifyAudience token presenter = .ok ()) (bound : token.audience.keys ≠ []) :
    presenter ∈ token.audience.keys := by
  obtain ⟨passed, -⟩ := else_ok_iff.mp accepted
  rw [mem_keys_iff]
  simpa [bound, Option.isSome_iff_ne_none] using passed

theorem verifyToken_ok {presenter : PrincipalId} {ctx : VerificationContext}
    (accepted : verifyToken hashes token presenter ctx = .ok ()) :
    verifyAudience token presenter = .ok () ∧ verifyWindow token ctx = .ok () := by
  obtain ⟨_, afterSignature⟩ := seq_ok_iff.mp accepted
  obtain ⟨audience, afterAudience⟩ := seq_ok_iff.mp afterSignature
  exact ⟨audience, (seq_ok_iff.mp afterAudience).1⟩

/-- What the loop knows about a link after its turn. -/
structure LinkAccepted (hashes : Hashes) (leafDelegate : PrincipalId)
    (context : DelegationVerificationContext) (oracle : RevocationOracle) (expectedZone : String)
    (token : CapabilityToken) (rest : List CapabilityToken) : Prop where
  zone : token.zone = expectedZone
  notRevoked : oracle token.jti = false
  audience : verifyAudience token (delegateOf hashes leafDelegate rest) = .ok ()
  window : token.nbf ≤ context.currentTick ∧ context.currentTick ≤ token.expiry
  attenuated : ∀ child ∈ rest.head?, child.capabilities.keys ⊆ token.capabilities.keys

theorem checkAttenuation_ok (accepted : checkAttenuation index token rest = .ok ()) :
    ∀ child ∈ rest.head?, child.capabilities.keys ⊆ token.capabilities.keys := by
  cases rest with
  | nil => rintro child ⟨⟩
  | cons next rest =>
    rintro child ⟨⟩
    simp only [checkAttenuation] at accepted
    split at accepted
    · next nothing =>
      intro capability member
      have kept := filter_eq_nil_iff.mp (isEmpty_iff.mp nothing) capability member
      rw [mem_keys_iff]
      simpa [Option.isSome_iff_ne_none] using kept
    · cases accepted

theorem verifyLink_ok_iff {summary : DelegationLinkSummary} :
    verifyLink hashes leafDelegate context oracle expectedZone index token rest = .ok summary ↔
      oracle token.jti = false ∧
        verifyLink hashes leafDelegate context (fun _ => false) expectedZone index token rest =
          .ok summary := by
  simp only [verifyLink, else_ok_iff]
  cases oracle token.jti <;> simp

theorem verifyLink_ok {summary : DelegationLinkSummary}
    (accepted : verifyLink hashes leafDelegate context oracle expectedZone index token rest =
      .ok summary) :
    LinkAccepted hashes leafDelegate context oracle expectedZone token rest := by
  obtain ⟨notRevoked, accepted⟩ := verifyLink_ok_iff.mp accepted
  simp only [verifyLink, else_ok_iff] at accepted
  obtain ⟨sameZone, -, -, -, accepted⟩ := accepted
  split at accepted
  · cases accepted
  next verified =>
    split at accepted
    · cases accepted
    next attenuated =>
      obtain ⟨audience, window⟩ := verifyToken_ok verified
      exact ⟨not_not.mp sameZone, notRevoked, audience, verifyWindow_ok window,
        checkAttenuation_ok attenuated⟩

variable {summaries : List DelegationLinkSummary}

theorem verifyLinks_ok
    (accepted : verifyLinks hashes leafDelegate context oracle expectedZone index links =
      .ok summaries) :
    ∀ before token rest, links = before ++ token :: rest →
      LinkAccepted hashes leafDelegate context oracle expectedZone token rest := by
  induction links generalizing index summaries with
  | nil => simp
  | cons first links ih =>
    obtain ⟨summary, turn, others⟩ := bind_ok accepted
    obtain ⟨_, later, _⟩ := bind_ok others
    intro before token rest split
    cases before with
    | nil =>
      obtain ⟨rfl, rfl⟩ := cons.inj split
      exact verifyLink_ok turn
    | cons head before => exact ih later before token rest (cons.inj split).2

theorem leaf_capabilities_subset
    (attenuated : ∀ before token rest, links = before ++ token :: rest →
      ∀ child ∈ rest.head?, child.capabilities.keys ⊆ token.capabilities.keys) :
    ∀ leaf ∈ links.getLast?, ∀ token ∈ links, leaf.capabilities.keys ⊆ token.capabilities.keys := by
  induction links with
  | nil => simp
  | cons first links ih =>
    intro leaf last token member
    have tail := ih fun before token rest split =>
      attenuated (first :: before) token rest (congrArg (first :: ·) split)
    cases links with
    | nil =>
      obtain rfl := mem_singleton.mp member
      obtain rfl : token = leaf := by simpa using last
      exact fun _ held => held
    | cons second links =>
      rcases mem_cons.mp member with rfl | later
      · exact Subset.trans (tail leaf last second (.head _))
          (attenuated [] token (second :: links) rfl second rfl)
      · exact tail leaf last token later

/-- The authority that a verified chain is supposed to carry. -/
structure Confers (hashes : Hashes) (links : List CapabilityToken) (required : RuntimeCapability)
    (leafDelegate : PrincipalId) (context : DelegationVerificationContext)
    (oracle : RevocationOracle) : Prop where
  rooted : ∃ root ∈ links.head?, root.issuer ∈ context.authorizedRoots.keys
  audience : ∀ before token rest, links = before ++ token :: rest →
    delegateOf hashes leafDelegate rest ∈ token.audience.keys
  zone : ∀ root ∈ links.head?, ∀ token ∈ links, token.zone = context.requiredZone.getD root.zone
  window : ∀ token ∈ links, token.nbf ≤ context.currentTick ∧ context.currentTick ≤ token.expiry
  notRevoked : ∀ token ∈ links, oracle token.jti = false
  required : ∀ token ∈ links, required ∈ token.capabilities.keys
  attenuated : ∀ leaf ∈ links.getLast?, ∀ token ∈ links,
    leaf.capabilities.keys ⊆ token.capabilities.keys

/-- No link is left open to every presenter. -/
def AudienceBound (links : List CapabilityToken) : Prop :=
  ∀ token ∈ links, token.audience.keys ≠ []

instance (links : List CapabilityToken) : Decidable (AudienceBound links) :=
  inferInstanceAs (Decidable (∀ token ∈ links, token.audience.keys ≠ []))

theorem verifyChain_ok {required : RuntimeCapability} {proof : AuthorizationProof}
    (accepted : verifyChain hashes links required leafDelegate context oracle = .ok proof) :
    ∃ root rest summaries, links = root :: rest ∧ root.issuer ∈ context.authorizedRoots.keys ∧
      verifyLinks hashes leafDelegate context oracle (context.requiredZone.getD root.zone) 0 links =
        .ok summaries ∧
      ∀ leaf ∈ links.getLast?, required ∈ leaf.capabilities.keys := by
  cases links with
  | nil => cases accepted
  | cons root rest =>
    simp only [verifyChain, else_ok_iff] at accepted
    obtain ⟨-, authorized, accepted⟩ := accepted
    obtain ⟨summaries, walked, decided⟩ := bind_ok accepted
    refine ⟨root, rest, summaries, rfl, ?_, walked, ?_⟩
    · rw [mem_keys_iff]
      simpa [Option.isSome_iff_ne_none] using authorized
    · intro leaf last
      obtain rfl := Option.mem_some_iff.mp last
      obtain ⟨present, -⟩ := else_ok_iff.mp decided
      rw [mem_keys_iff]
      simpa [Option.isSome_iff_ne_none] using present

theorem verifyLinks_of_stricter {stricter : RevocationOracle}
    (more : ∀ tokenId, oracle tokenId = true → stricter tokenId = true)
    (accepted : verifyLinks hashes leafDelegate context stricter expectedZone index links =
      .ok summaries) :
    verifyLinks hashes leafDelegate context oracle expectedZone index links = .ok summaries := by
  induction links generalizing index summaries with
  | nil => exact accepted
  | cons token rest ih =>
    obtain ⟨summary, turn, others⟩ := bind_ok accepted
    obtain ⟨later, walked, result⟩ := bind_ok others
    obtain ⟨notRevoked, checked⟩ := verifyLink_ok_iff.mp turn
    have stillNot : oracle token.jti = false := by
      by_contra revoked
      rw [more _ (Bool.not_eq_false _ ▸ revoked)] at notRevoked
      cases notRevoked
    have same := verifyLink_ok_iff.mpr ⟨stillNot, checked⟩
    simp only [verifyLinks, same, ih walked, ok_bind]
    exact result

theorem verifyChain_of_stricter {stricter : RevocationOracle}
    (more : ∀ tokenId, oracle tokenId = true → stricter tokenId = true)
    {required : RuntimeCapability} {proof : AuthorizationProof}
    (accepted : verifyChain hashes links required leafDelegate context stricter = .ok proof) :
    verifyChain hashes links required leafDelegate context oracle = .ok proof := by
  cases links with
  | nil => cases accepted
  | cons root rest =>
    simp only [verifyChain, else_ok_iff] at accepted ⊢
    obtain ⟨shallow, authorized, accepted⟩ := accepted
    obtain ⟨summaries, walked, decided⟩ := bind_ok accepted
    refine ⟨shallow, authorized, ?_⟩
    rw [verifyLinks_of_stricter more walked]
    exact decided

/-- A verified chain confers its authority exactly when every link names an
audience, and a stricter oracle never makes a refused chain pass. -/
theorem verifyChain_confers_iff (hashes : Hashes) (links : List CapabilityToken)
    (required : RuntimeCapability) (leafDelegate : PrincipalId)
    (context : DelegationVerificationContext) (oracle : RevocationOracle) :
    (∀ proof, verifyChain hashes links required leafDelegate context oracle = .ok proof →
      (Confers hashes links required leafDelegate context oracle ↔ AudienceBound links)) ∧
    ∀ stricter : RevocationOracle, (∀ tokenId, oracle tokenId = true → stricter tokenId = true) →
      ∀ error, verifyChain hashes links required leafDelegate context oracle = .error error →
        ∀ proof, verifyChain hashes links required leafDelegate context stricter ≠ .ok proof := by
  constructor
  · intro proof accepted
    obtain ⟨root, rest, summaries, rfl, authorized, walked, leafHolds⟩ := verifyChain_ok accepted
    have linkAccepted := verifyLinks_ok walked
    have each {token : CapabilityToken} (member : token ∈ root :: rest) :
        ∃ behind, LinkAccepted hashes leafDelegate context oracle
          (context.requiredZone.getD root.zone) token behind := by
      obtain ⟨before, behind, split⟩ := List.append_of_mem member
      exact ⟨behind, linkAccepted before token behind split⟩
    have attenuated := leaf_capabilities_subset fun before token behind split =>
      (linkAccepted before token behind split).attenuated
    constructor
    · intro confers token member none
      obtain ⟨before, behind, split⟩ := List.append_of_mem member
      have named := confers.audience before token behind split
      rw [none] at named
      cases named
    · intro bound
      refine ⟨⟨root, rfl, authorized⟩, ?_, ?_, ?_, ?_, ?_, attenuated⟩
      · intro before token behind split
        have member : token ∈ root :: rest := split ▸ by simp
        exact verifyAudience_ok (linkAccepted before token behind split).audience
          (bound token member)
      · rintro first ⟨⟩ token member
        obtain ⟨behind, link⟩ := each member
        exact link.zone
      · intro token member
        obtain ⟨behind, link⟩ := each member
        exact link.window
      · intro token member
        obtain ⟨behind, link⟩ := each member
        exact link.notRevoked
      · intro token member
        have last := List.getLast?_eq_getLast_of_ne_nil (List.cons_ne_nil root rest)
        exact attenuated _ last token member (leafHolds _ last)
  · intro stricter more error refused proof accepted
    rw [verifyChain_of_stricter more accepted] at refused
    cases refused

def issuedLink (hashes : Hashes) (issuer : VerificationKey) (audience : List PrincipalId)
    (capabilities : List RuntimeCapability) : CapabilityToken :=
  let unsigned : CapabilityToken :=
    { version := .v2, jti := .zero, issuer, audience := .ofKeys audience
      capabilities := .ofKeys capabilities, nbf := 10, expiry := 20, epoch := 1
      checkpointBinding := some ⟨0, .zero⟩, revocationFreshness := some ⟨0, .zero⟩
      signature := .sentinel, zone := "zone-a" }
  { unsigned with
    signature := hashes.computeVerificationHash issuer (unsigned.preimageBytes hashes) }

def rootContext (root : VerificationKey) : DelegationVerificationContext where
  currentTick := 15
  verifierCheckpointSeq := 0
  verifierRevocationSeq := 0
  maxChainDepth := 8
  authorizedRoots := .ofKeys [root]
  requiredZone := none

theorem verifyChain_confers_two_links :
    let key : VerificationKey := ⟨Hashes.ipad⟩
    let hashes := Hashes.polynomial
    let links := [issuedLink hashes key [hashes.principalId key] [.fsRead, .fsWrite],
      issuedLink hashes key [.zero] [.fsRead]]
    (∃ proof, verifyChain hashes links .fsRead .zero (rootContext key) (fun _ => false) =
        .ok proof) ∧
      Confers hashes links .fsRead .zero (rootContext key) (fun _ => false) := by
  intro key hashes links
  have accepted :
      (verifyChain hashes links .fsRead .zero (rootContext key) fun _ => false).isOk = true := by
    decide +kernel
  obtain ⟨proof, verified⟩ := exists_of_isOk accepted
  exact ⟨⟨proof, verified⟩,
    ((verifyChain_confers_iff hashes links .fsRead .zero (rootContext key) fun _ => false).1
      proof verified).mpr (by decide +kernel)⟩

/-- Whatever the hashes are, a link without an audience carries its authority to
every delegate, of whom it says nothing. -/
theorem verifyChain_open_audience (hashes : Hashes) : let key : VerificationKey := ⟨Hashes.ipad⟩
    let links := [issuedLink hashes key [] [.fsRead]]
    ∀ delegate : PrincipalId,
      (∃ proof, verifyChain hashes links .fsRead delegate (rootContext key) (fun _ => false) =
        .ok proof) ∧
      ¬ Confers hashes links .fsRead delegate (rootContext key) (fun _ => false) := by
  intro key links delegate
  have present : key.raw ≠ .zero := by decide
  have signed : ∀ token ∈ links, verifySignatureOf hashes token = .ok () := by
    intro token member
    obtain rfl := mem_singleton.mp member
    have valid : hashes.verifySignature key
        ((issuedLink hashes key [] [.fsRead]).preimageBytes hashes)
        (issuedLink hashes key [] [.fsRead]).signature = .ok () :=
      hashes.verifySignature_ok_iff.mpr ⟨present, rfl⟩
    unfold verifySignatureOf
    rw [show (issuedLink hashes key [] [.fsRead]).issuer = key from rfl, valid]
  constructor
  · have turn : verifyToken hashes (issuedLink hashes key [] [.fsRead]) delegate
        (rootContext key).asTokenContext = .ok () := by
      unfold verifyToken
      rw [signed _ (.head _)]
      rfl
    apply exists_of_isOk
    simp only [verifyChain, links, verifyLinks, verifyLink, delegateOf, turn]
    rfl
  · intro confers
    have named := confers.audience [] _ [] rfl
    cases named

theorem verifyChain_accepts_open_audience :
    let key : VerificationKey := ⟨Hashes.ipad⟩
    let links := [issuedLink Hashes.polynomial key [] [.fsRead]]
    (∃ proof, verifyChain Hashes.polynomial links .fsRead .zero (rootContext key) (fun _ => false) =
        .ok proof) ∧
      ¬ Confers Hashes.polynomial links .fsRead .zero (rootContext key) (fun _ => false) :=
  verifyChain_open_audience Hashes.polynomial .zero

end FrankenEngine.Authority
