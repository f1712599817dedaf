import Bongo.RelayCommands

/-!
Authentication of mail hosts. Where the recipient's domain asks for TLS, nothing of
a message may be said before the host has proved who it is: to the web's
authorities under MTA-STS, to the TLSA records of its own zone under DANE. The
certificates come from the host, and all but the first may be copies of anyone's.
-/

namespace Bongo.Relay

open ByteKeys Records

section Policies

structure TLSA where
  usage : Nat
  selector : Nat
  matchingType : Nat
  certificate : Bytes
  deriving DecidableEq

/-- What the libraries say about certificates: whether a record matches one, whether
a list of them is good for a host, whether one was signed with another's key. -/
structure PKI (Cert : Type) where
  tlsaVerify : TLSA → Cert → Bool
  pkixVerify : Bytes → List Cert → Bool
  signedBy : Cert → Cert → Bool

structure DeliveryTLSPolicy where
  requireTLS : Bool
  mxAuthorized : Bool
  daneTLSA : List TLSA
  deriving DecidableEq

def DeliveryTLSPolicy.plain (pol : DeliveryTLSPolicy) : TLSPolicy :=
  ⟨pol.requireTLS, pol.mxAuthorized⟩

variable {Cert : Type} (pki : PKI Cert)

/-- The records of usage 3 are for the first certificate, those of usage 2 for any;
the others are ignored. -/
def tlsaMatches (tlsa : List TLSA) : List Cert → Bool
  | [] => false
  | leaf :: rest =>
    tlsa.any fun record =>
      if record.usage = 3 then pki.tlsaVerify record leaf
      else if record.usage = 2 then (leaf :: rest).any (pki.tlsaVerify record)
      else false

end Policies

section Peers

inductive StartTLSReply where
  | accepted
  | refused
  | broken
  deriving DecidableEq

/-- A host, or somebody in its place. `finishes` covers the rest of the handshake,
the proof that the peer has the first certificate's key included; the answers of
`line` are those over the connection, its own `startTLS` apart. -/
structure Peer (Cert : Type) where
  line : Responder
  reply : StartTLSReply
  presented : List Cert
  finishes : Bool

variable {Cert : Type} (pki : PKI Cert) (pol : DeliveryTLSPolicy) (host : Bytes)
  (peer : Peer Cert)

/-- With TLSA records the check of the certificates against the web's authorities is
switched off and replaced. -/
def handshake : Bool :=
  decide (peer.presented ≠ []) && peer.finishes &&
    if pol.daneTLSA ≠ [] then tlsaMatches pki pol.daneTLSA peer.presented
    else pki.pkixVerify host peer.presented

def startTLSOn : StartTLS :=
  match peer.reply with
  | .accepted => if handshake pki pol host peer then .completed else .failed
  | .refused => .refused
  | .broken => .failed

def Peer.responder : Responder := { peer.line with startTLS := startTLSOn pki pol host peer }

inductive Leads (presented : List Cert) : Cert → Cert → Prop where
  | here (cert : Cert) : Leads presented cert cert
  | signed {cert issuer anchor : Cert} (listed : issuer ∈ presented)
      (signature : pki.signedBy cert issuer = true)
      (onward : Leads presented issuer anchor) : Leads presented cert anchor

def Authenticated : Prop :=
  ∃ leaf rest, peer.presented = leaf :: rest ∧
    if pol.daneTLSA = [] then pki.pkixVerify host peer.presented = true
    else
      (∃ record ∈ pol.daneTLSA, record.usage = 3 ∧ pki.tlsaVerify record leaf = true) ∨
        ∃ record ∈ pol.daneTLSA, record.usage = 2 ∧
          ∃ anchor, Leads pki peer.presented leaf anchor ∧ pki.tlsaVerify record anchor = true

/-- A record of usage 2 matches one of the certificates. -/
def MatchesAnchor : Prop :=
  ∃ record ∈ pol.daneTLSA, record.usage = 2 ∧
    ∃ cert ∈ peer.presented, pki.tlsaVerify record cert = true

structure Peer.Proceeds (cfg : SMTPRelay) : Prop where
  dials : peer.line.dials = true
  offers : peer.line.probe = some true
  accepts : peer.reply = .accepted
  finishes : peer.finishes = true
  greets : peer.line.hello = true
  auth : cfg.username ≠ [] → peer.line.offersAuth = true

variable {peer}

theorem tlsaMatches_iff {leaf : Cert} {rest : List Cert}
    (presented : peer.presented = leaf :: rest) :
    tlsaMatches pki pol.daneTLSA peer.presented = true ↔
      (∃ record ∈ pol.daneTLSA, record.usage = 3 ∧ pki.tlsaVerify record leaf = true) ∨
        MatchesAnchor pki pol peer := by
  rw [MatchesAnchor, presented, tlsaMatches, List.any_eq_true]
  constructor
  · rintro ⟨record, listed, fits⟩
    split_ifs at fits with endEntity anchor
    · exact .inl ⟨record, listed, endEntity, fits⟩
    · exact .inr ⟨record, listed, anchor, List.any_eq_true.mp fits⟩
  · rintro (⟨record, listed, usage, fits⟩ | ⟨record, listed, usage, fits⟩)
    · exact ⟨record, listed, by rw [if_pos usage]; exact fits⟩
    · refine ⟨record, listed, ?_⟩
      rw [if_neg (by omega), if_pos usage]
      exact List.any_eq_true.mpr fits

variable {pki pol host}

/-- The handshake lets in the authenticated host, and whoever shows a certificate that
a record of usage 2 matches. -/
theorem handshake_cases (completed : handshake pki pol host peer = true) :
    Authenticated pki pol host peer ∨ pol.daneTLSA ≠ [] ∧ MatchesAnchor pki pol peer := by
  simp only [handshake, Bool.and_eq_true, decide_eq_true_eq] at completed
  obtain ⟨⟨shown, _⟩, checked⟩ := completed
  obtain ⟨leaf, rest, presented⟩ := List.exists_cons_of_ne_nil shown
  by_cases dane : pol.daneTLSA = []
  · rw [if_neg (not_not.mpr dane)] at checked
    exact .inl ⟨leaf, rest, presented, by rw [if_pos dane]; exact checked⟩
  · rw [if_pos dane, tlsaMatches_iff pki pol presented] at checked
    rcases checked with leafMatch | anchor
    · exact .inl ⟨leaf, rest, presented, by rw [if_neg dane]; exact .inl leafMatch⟩
    · exact .inr ⟨dane, anchor⟩

end Peers

/-! The connection under a policy that requires TLS. -/
section Required

structure Responder.Secures (remote : Responder) : Prop where
  dials : remote.dials = true
  offers : remote.probe = some true
  completes : remote.startTLS = .completed
  greets : remote.hello = true

/-- With TLS required there is no way to the commands but over TLS. -/
theorem approach_required (pol : TLSPolicy) (required : pol.requireTLS = true)
    (remote : Responder) :
    (∃ error, approach pol remote = .error error ∧ ¬ remote.Secures) ∨
      approach pol remote = .ok true ∧ remote.Secures := by
  obtain ⟨dials, probe, startTLS, hello, _, _, _, _, _, _, _, _⟩ := remote
  cases dials with
  | false => exact .inl ⟨.connecting, rfl, fun secures => by cases secures.dials⟩
  | true =>
    cases probe with
    | none => exact .inl ⟨.ehlo, rfl, fun secures => by cases secures.offers⟩
    | some offered =>
      cases offered with
      | false =>
        refine .inl ⟨.policyRequiresTLS, ?_, fun secures => by cases secures.offers⟩
        simp [approach, secure, required, reject, orError, bind, Except.bind]
      | true =>
        cases startTLS with
        | refused | failed =>
          refine .inl ⟨.policySTARTTLSFailed, ?_, fun secures => by
            cases secures.completes⟩
          simp [approach, secure, required, reject, orError, bind, Except.bind]
        | completed =>
          cases hello with
          | false => exact .inl ⟨.ehlo, rfl, fun secures => by cases secures.greets⟩
          | true => exact .inr ⟨rfl, rfl, rfl, rfl, rfl⟩

variable {Cert : Type} (pki : PKI Cert) (pol : DeliveryTLSPolicy) (host : Bytes)
  (peer : Peer Cert) (cfg : SMTPRelay) (env : Option (Bytes → Bool)) (recipients : List Bytes)

def sendToHost : Connection × Sent :=
  converse cfg env host pol.plain (peer.responder pki pol host) recipients

/-- Commands go over TLS to an authenticated host; else there are none and the
delivery fails. -/
def AuthenticatedOnly : Prop :=
  ((sendToHost pki pol host peer cfg env recipients).1.tls = true ∧
      Authenticated pki pol host peer) ∨
    ((sendToHost pki pol host peer cfg env recipients).1.commands = [] ∧
      (sendToHost pki pol host peer cfg env recipients).2.err ≠ none)

variable {pki pol host peer cfg}

theorem responder_secures_iff : (peer.responder pki pol host).Secures ↔
    peer.line.dials = true ∧ peer.line.probe = some true ∧ peer.reply = .accepted ∧
      handshake pki pol host peer = true ∧ peer.line.hello = true := by
  have completes : startTLSOn pki pol host peer = .completed ↔
      peer.reply = .accepted ∧ handshake pki pol host peer = true := by
    unfold startTLSOn
    cases peer.reply <;> simp
  constructor
  · intro secures
    obtain ⟨accepted, completed⟩ := completes.mp secures.completes
    exact ⟨secures.dials, secures.offers, accepted, completed, secures.greets⟩
  · rintro ⟨dials, offers, accepted, completed, greets⟩
    exact ⟨dials, offers, completes.mpr ⟨accepted, completed⟩, greets⟩

/-- Over TLS, to a host that offers AUTH where there are credentials, something is
said. -/
theorem commands_said (approached : approach pol.plain (peer.responder pki pol host) = .ok true)
    (offered : cfg.username ≠ [] → peer.line.offersAuth = true) :
    (sendToHost pki pol host peer cfg env recipients).1.commands ≠ [] := by
  simp only [sendToHost, converse, approached]
  by_cases nobody : cfg.username = []
  · simp [authenticate_anonymous cfg _ nobody, transact]
  have offers : (peer.responder pki pol host).offersAuth = true := offered nobody
  have sends : (authenticate cfg (peer.responder pki pol host) true).1 =
      [.auth cfg.username cfg.password] := by
    simp [authenticate, shouldSendAuth, SMTPRelay.config, nobody, offers]
  split
  · simp [sends]
  · simp [sends]

theorem commands_withheld (approached : approach pol.plain (peer.responder pki pol host) = .ok true)
    (named : cfg.username ≠ []) (unsupported : peer.line.offersAuth ≠ true) :
    (sendToHost pki pol host peer cfg env recipients).1.commands = [] ∧
      (sendToHost pki pol host peer cfg env recipients).2.err ≠ none := by
  have offers : (peer.responder pki pol host).offersAuth = false :=
    Bool.eq_false_iff.mpr unsupported
  have ends : authenticate cfg (peer.responder pki pol host) true =
      ([], .error .authUnsupported) := by
    simp [authenticate, shouldSendAuth, SMTPRelay.config, named, offers]
  simp [sendToHost, converse, approached, ends]

end Required

/-- Under a policy that requires TLS the commands go to authenticated hosts only,
unless the host gets past DANE with a certificate of usage 2 that its own does not
lead to. -/
theorem authenticated_only_iff {Cert : Type} (pki : PKI Cert) (pol : DeliveryTLSPolicy)
    (host : Bytes) (peer : Peer Cert) (cfg : SMTPRelay) (env : Option (Bytes → Bool))
    (recipients : List Bytes) (required : pol.requireTLS = true) :
    AuthenticatedOnly pki pol host peer cfg env recipients ↔
      pol.daneTLSA = [] ∨ Authenticated pki pol host peer ∨ ¬ MatchesAnchor pki pol peer ∨
        ¬ peer.Proceeds cfg := by
  constructor
  · intro only
    by_contra misled
    simp only [not_or, not_not] at misled
    obtain ⟨dane, stranger, anchor, proceeds⟩ := misled
    -- The certificates pass, so the commands are said.
    obtain ⟨leaf, rest, presented⟩ : ∃ leaf rest, peer.presented = leaf :: rest := by
      obtain ⟨_, _, _, cert, shown, _⟩ := anchor
      exact List.exists_cons_of_ne_nil (List.ne_nil_of_mem shown)
    have completed : handshake pki pol host peer = true := by
      have fits := (tlsaMatches_iff pki pol presented).mpr (.inr anchor)
      have shown : peer.presented ≠ [] := by
        rw [presented]
        exact List.cons_ne_nil leaf rest
      simp [handshake, dane, fits, proceeds.finishes, shown]
    have secures := responder_secures_iff.mpr
      ⟨proceeds.dials, proceeds.offers, proceeds.accepts, completed, proceeds.greets⟩
    rcases approach_required pol.plain required (peer.responder pki pol host) with
      ⟨error, _, broken⟩ | ⟨approached, _⟩
    · exact broken secures
    · rcases only with ⟨_, authentic⟩ | ⟨silent, _⟩
      · exact stranger authentic
      · exact commands_said env recipients approached proceeds.auth silent
  · intro sound
    rcases approach_required pol.plain required (peer.responder pki pol host) with
      ⟨error, broken, _⟩ | ⟨approached, secures⟩
    · right
      simp [sendToHost, converse, broken]
    obtain ⟨dials, offers, accepted, completed, greets⟩ := responder_secures_iff.mp secures
    have overTLS : (sendToHost pki pol host peer cfg env recipients).1.tls = true := by
      simp only [sendToHost, converse, approached]
      split
      · rfl
      · rfl
    by_cases authentic : Authenticated pki pol host peer
    · exact .inl ⟨overTLS, authentic⟩
    right
    rcases handshake_cases completed with authenticated | ⟨dane, anchor⟩
    · exact absurd authenticated authentic
    rcases sound with none | authenticated | unmatched | stops
    · exact absurd none dane
    · exact absurd authenticated authentic
    · exact absurd anchor unmatched
    have finishes : peer.finishes = true := by
      simp only [handshake, Bool.and_eq_true] at completed
      exact completed.1.2
    have silent : ¬ (cfg.username ≠ [] → peer.line.offersAuth = true) := fun auth =>
      stops ⟨dials, offers, accepted, finishes, greets, auth⟩
    obtain ⟨named, unsupported⟩ := Classical.not_imp.mp silent
    exact commands_withheld env recipients approached named unsupported

/-- Certificate 2 is an authority's, and signed certificate 1. -/
def samplePKI : PKI Nat where
  tlsaVerify record cert := record.certificate = [cert.toUInt8]
  pkixVerify _ _ := false
  signedBy cert issuer := cert = 1 && issuer = 2

def anchorPolicy : DeliveryTLSPolicy := ⟨true, true, [⟨2, 0, 0, [2]⟩]⟩

def peerWith (presented : List Nat) : Peer Nat := ⟨politeHost, .accepted, presented, true⟩

def noRelay : SMTPRelay := ⟨false, [], [], [], false⟩

theorem authenticated_only_iff_issued :
    AuthenticatedOnly samplePKI anchorPolicy (ascii "mx") (peerWith [1, 2]) noRelay none [] := by
  refine (authenticated_only_iff samplePKI anchorPolicy (ascii "mx") (peerWith [1, 2]) noRelay none
    [] rfl).mpr (.inr (.inl ⟨1, [2], rfl, ?_⟩))
  rw [if_neg (by decide)]
  refine .inr ⟨_, List.mem_cons_self, rfl, 2, ?_, by decide⟩
  exact .signed (List.mem_cons_of_mem 1 List.mem_cons_self) (by decide) (.here 2)

/-- A stranger's certificate with a copy of the authority's beside it is let in. -/
theorem copied_anchor_accepted :
    (sendToHost samplePKI anchorPolicy (ascii "mx") (peerWith [7, 2]) noRelay none
        [ascii "bob@b.example"]).1 =
      ⟨ascii "mx", true, [.mail, .rcpt (ascii "bob@b.example"), .data, .quit]⟩ ∧
    ¬ AuthenticatedOnly samplePKI anchorPolicy (ascii "mx") (peerWith [7, 2]) noRelay none
        [ascii "bob@b.example"] := by
  have said : (sendToHost samplePKI anchorPolicy (ascii "mx") (peerWith [7, 2]) noRelay none
      [ascii "bob@b.example"]).1 =
      ⟨ascii "mx", true, [.mail, .rcpt (ascii "bob@b.example"), .data, .quit]⟩ := by
    decide
  refine ⟨said, fun only => ?_⟩
  rcases only with ⟨_, leaf, rest, presented, proof⟩ | ⟨silent, _⟩
  · cases presented
    rw [if_neg (by decide)] at proof
    rcases proof with ⟨record, listed, usage, _⟩ | ⟨record, listed, _, anchor, path, fits⟩
    · rw [List.mem_singleton.mp listed] at usage
      cases usage
    -- Nothing signed certificate 7, so the path ends where it starts.
    cases path with
    | here =>
      rw [List.mem_singleton.mp listed] at fits
      revert fits
      decide
    | signed _ signature _ =>
      simp [samplePKI] at signature
  · rw [said] at silent
    cases silent

end Bongo.Relay
