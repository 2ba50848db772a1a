import Trillionnium.Identity.Steps
import Trillionnium.Lib.Calls

/-!
# Revocation

A run is any sequence of calls on a default registry, at any heights. A revoked identifier takes all
its tokens with it, a revocation is never changed, and the trail has one event for every record that
a call writes.
-/

namespace Trillionnium.Identity

open Lib IdentityRegistry OrdMap

abbrev RegistryTurn := Turn IdentityRegistry (Answer Call Failure (Option U64))

/-- The turns of a run of calls on the default registry, and the registry after them. -/
abbrev Run (ts : List RegistryTurn) (r : IdentityRegistry) : Prop :=
  Runs Call.perform Crash ∅ ts r

/-! ## What is said of a run -/

/-- The records that a call wrote, identifiers first. -/
def changes (r r' : IdentityRegistry) : List Target :=
  (r.dids.changed r'.dids).map Target.did ++
    (r.capabilities.changed r'.capabilities).filterMap fun id =>
      (r'.capabilities.get id).map fun token => .token token.subjectDid

def Controls (r : IdentityRegistry) (actor did : String) : Prop :=
  ∃ record, r.dids.get did = some record ∧ record.controller = actor

/-- Who makes a call: whoever registers an identifier is its controller. -/
def Call.actor : Call → String
  | .registerDid _ controller _ => controller
  | .issueCapability actor .. | .renewCapability actor .. | .revokeCapability actor ..
  | .revokeDid actor .. => actor

def Call.subject (r : IdentityRegistry) : Call → Option String
  | .registerDid .. => none
  | .issueCapability _ did .. | .revokeDid _ did _ => some did
  | .renewCapability _ tokenId .. | .revokeCapability _ tokenId .. =>
    (r.capabilities.get tokenId).map (·.subjectDid)

def Call.IsRegistration : Call → Prop
  | .registerDid .. => True
  | _ => False

/-- Who may write a record: only the controller of the identifier, but anyone may register a new
identifier. -/
def Target.Permitted (r : IdentityRegistry) (actor : String) : Target → Prop
  | .did name => r.dids.get name = none ∨ Controls r actor name
  | .token subjectDid => Controls r actor subjectDid

structure Authorized (r : IdentityRegistry) (call : Call) (r' : IdentityRegistry) : Prop where
  subject : call.IsRegistration ∨
    ∃ subject, call.subject r = some subject ∧ Controls r call.actor subject
  writes : ∀ target ∈ changes r r', target.Permitted r call.actor

/-- Every revocation of `r` is still there, at the same height. -/
structure Keeps (r r' : IdentityRegistry) : Prop where
  dids : Extends (fun d d' => ∀ h, d.revokedAt = some h → d'.revokedAt = some h) r.dids r'.dids
  tokens : Extends (fun t t' => ∀ h, t.revokedAt = some h → t'.revokedAt = some h)
    r.capabilities r'.capabilities

/-- No token of the identifier is good for anything from the height on. -/
def Dead (r : IdentityRegistry) (did : String) (height : U64) : Prop :=
  ∀ id token, r.capabilities.get id = some token → token.subjectDid = did →
    token.revokedAt ≠ none ∧ ∀ actor scope atHeight, height ≤ atHeight →
      verifyCapability r actor id scope atHeight ≠ .ok ()

/-- The token is well formed and its identifier known. -/
structure CapabilityToken.Sound (r : IdentityRegistry) (id : U64) (token : CapabilityToken) :
    Prop where
  id : token.tokenId = id
  subject : ∃ did, r.dids.get token.subjectDid = some did ∧ did.createdAt ≤ token.issuedAt ∧
    (did.revokedAt ≠ none → token.revokedAt ≠ none)
  revoked : ∀ h, token.revokedAt = some h → token.issuedAt ≤ h

/-- What holds of every registry. -/
structure Consistent (r : IdentityRegistry) : Prop where
  ids : ∀ id, r.capabilities.get id ≠ none ↔
    1 ≤ id.toNat ∧ id.toNat ≤ r.nextCapabilityId.toNat
  tokens : ∀ id token, r.capabilities.get id = some token → token.Sound r id
  trail : r.auditTrail.map (fun event => event.seq.toNat) = List.range' 1 r.auditTrail.length
  short : r.auditTrail.length < 2 ^ 64

/-- What a call that returned did. -/
structure Effect (r : IdentityRegistry) (call : Call) (r' : IdentityRegistry) : Prop where
  authorized : Authorized r call r'
  events : ∃ events, r'.auditTrail = r.auditTrail ++ events ∧
    events.map AuditEvent.target = changes r r'

structure Sound (ts : List RegistryTurn) (r : IdentityRegistry) : Prop where
  consistent : Consistent r
  issued : (ts.filterMap fun t => t.label.reply.toOption.bind id).map (fun id => id.toNat) =
    List.range' 1 r.nextCapabilityId.toNat
  kept : ∀ t ∈ ts, Keeps t.after r
  forever : ∀ t ∈ ts, ∀ did record height, t.after.dids.get did = some record →
    record.revokedAt = some height → Dead r did height
  returned : ∀ t ∈ ts, ∀ reply, t.label.reply = .ok reply → Effect t.before t.label.call t.after
  failed : ∀ t ∈ ts, ∀ e, t.label.reply = .error e → t.after = t.before

section
variable {r r' : IdentityRegistry} {call : Call} {reply : Option U64} {did : String}
  {anchor tokenId : U64} {ids : List U64}

/-! ## The events of a call -/

theorem Recorded.numbered {targets : List Target}
    (h : Recorded n targets events) (hn : n < 2 ^ 64) :
    events.map (fun event => event.seq.toNat) = List.range' (n + 1) events.length ∧
      n + events.length < 2 ^ 64 := by
  have hseqs := h.seqs
  clear h
  induction events generalizing n with
  | nil => exact ⟨rfl, hn⟩
  | cons event events ih =>
    simp only [List.map_cons, List.length_cons, List.range'_succ, List.cons.injEq] at hseqs ⊢
    obtain ⟨hseq, hseqs⟩ := hseqs
    rw [Nat.mod_eq_of_lt hn] at hseq
    obtain ⟨hrest, hlen⟩ := ih (hseq ▸ event.seq.isLt) hseqs
    exact ⟨⟨hseq, hrest⟩, by omega⟩

variable {event : AuditEvent} {record : DidRecord}

theorem changes_setDid (h : r.dids.get did ≠ some record) :
    changes r (addEvent event (setDid did record r)) = [.did did] := by
  simp [changes, addEvent, setDid, changed_insert h]

variable {token : CapabilityToken}

theorem changes_setToken (h : r.capabilities.get tokenId ≠ some token) :
    changes r (addEvent event (setToken tokenId token { r with nextCapabilityId := next })) =
      [.token token.subjectDid] := by
  simp [changes, addEvent, setToken, changed_insert h]

namespace Cascaded

theorem changed (h : Cascaded did anchor (toRevoke r did) r r') :
    r.capabilities.changed r'.capabilities = toRevoke r did := by
  refine changed_eq (List.pairwise_map.mpr (OrdMap.sorted _)) fun id => ?_
  rw [h.tokens]
  split
  · next hid =>
    obtain ⟨token, htoken, -, hnone⟩ := mem_toRevoke.mp hid
    have hne : token ≠ token.cascade anchor := fun heq => by
      rw [heq] at hnone
      cases hnone
    simp [hid, htoken, hne]
  · next hid => simp [hid]

theorem changes (h : Cascaded did anchor (toRevoke r did) r r') :
    (r.capabilities.changed r'.capabilities).filterMap (fun id =>
      (r'.capabilities.get id).map fun token => Target.token token.subjectDid) =
      (toRevoke r did).map fun _ => .token did := by
  rw [h.changed, ← List.filterMap_eq_map]
  refine List.filterMap_congr fun id hid => ?_
  obtain ⟨token, htoken, hsubject, -⟩ := mem_toRevoke.mp hid
  rw [h.tokens, if_pos hid, htoken]
  simp [CapabilityToken.cascade, hsubject]

end Cascaded

namespace Step

theorem subject (h : Step r call reply r') : call.IsRegistration ∨
    ∃ subject, call.subject r = some subject ∧ Controls r call.actor subject := by
  cases h with
  | registerDid => exact .inl trivial
  | issueCapability hdid _ hactor => exact .inr ⟨_, rfl, _, hdid, hactor⟩
  | revokeAgain htoken hdid hactor | revokeCapability htoken hdid hactor
  | renewAgain htoken hdid hactor | renewCapability htoken hdid hactor =>
    exact .inr ⟨_, by rw [Call.subject, htoken]; rfl, _, hdid, hactor⟩
  | revokeDidAgain hdid hactor | revokeDid hdid hactor => exact .inr ⟨_, rfl, _, hdid, hactor⟩

/-- The events that a call writes are about the records that it writes, and the caller may write
those. -/
theorem recorded (hr : Consistent r) (h : Step r call reply r') :
    (∃ events, r'.auditTrail = r.auditTrail ++ events ∧
      Recorded r.auditTrail.length (changes r r') events) ∧
      ∀ target ∈ changes r r', target.Permitted r call.actor := by
  cases h with
  | @registerDid did _ _ event hnew hevent =>
    rw [changes_setDid (by simp [hnew])]
    exact ⟨⟨[event], rfl, hevent⟩, by simp [Target.Permitted, hnew]⟩
  | @issueCapability _ _ _ _ _ tokenId _ event hdid hactive hactor hcreated hid hevent =>
    have hnew : r.capabilities.get tokenId = none := by
      by_contra hne
      have hle := ((hr.ids tokenId).mp hne).2
      omega
    rw [changes_setToken (by simp [hnew])]
    exact ⟨⟨[event], rfl, hevent⟩, List.forall_mem_singleton.mpr ⟨_, hdid, hactor⟩⟩
  | revokeAgain | renewAgain => exact ⟨⟨[], by simp, by simp [changes], by simp⟩, by simp [changes]⟩
  | @revokeCapability _ tokenId atHeight _ token _ event htoken hdid hactor hfirst hissued hevent =>
    have hne : r.capabilities.get tokenId ≠ some { token with revokedAt := some atHeight } := by
      intro heq
      rw [htoken] at heq
      simp [congrArg CapabilityToken.revokedAt (Option.some.inj heq)] at hfirst
    rw [changes_setToken hne]
    exact ⟨⟨[event], rfl, hevent⟩, List.forall_mem_singleton.mpr ⟨_, hdid, hactor⟩⟩
  | @renewCapability _ tokenId _ expiresAt token _ event htoken hdid hactor hchange hevent =>
    have hne : r.capabilities.get tokenId ≠ some { token with expiresAt := expiresAt } := by
      intro heq
      rw [htoken] at heq
      exact hchange (congrArg CapabilityToken.expiresAt (Option.some.inj heq))
    rw [changes_setToken hne]
    exact ⟨⟨[event], rfl, hevent⟩, List.forall_mem_singleton.mpr ⟨_, hdid, hactor⟩⟩
  | @revokeDidAgain _ did _ anchor record r' hdid hactor hrevoked hcascade =>
    obtain ⟨events, htrail, hevents⟩ := hcascade.trail
    have hchanges : changes r r' = (toRevoke r did).map fun _ => .token did := by
      rw [changes, hcascade.dids, changed_self, hcascade.changes]
      rfl
    rw [hchanges]
    refine ⟨⟨events, htrail, hevents⟩, ?_⟩
    simp only [List.forall_mem_map]
    exact fun _ _ => ⟨_, hdid, hactor⟩
  | @revokeDid _ did atHeight record event r' hdid hactor hfirst hevent hcascade =>
    obtain ⟨events, htrail, hevents⟩ := hcascade.trail
    have hne : r.dids.get did ≠ some { record with revokedAt := some atHeight } := by
      intro heq
      rw [hdid] at heq
      simp [congrArg DidRecord.revokedAt (Option.some.inj heq)] at hfirst
    have hchanges : changes r r' = .did did :: (toRevoke r did).map fun _ => .token did := by
      rw [changes, hcascade.dids, addEvent, setDid, changed_insert hne]
      exact congrArg (Target.did did :: ·)
        (Cascaded.changes (r := addEvent event (setDid did _ r)) hcascade)
    rw [hchanges]
    refine ⟨⟨event :: events, ?_, hevent.cons ?_⟩, ?_⟩
    · simp [htrail, addEvent, setDid]
    · simpa [addEvent, setDid] using hevents
    · refine List.forall_mem_cons.mpr ⟨.inr ⟨_, hdid, hactor⟩, ?_⟩
      simp only [List.forall_mem_map]
      exact fun _ _ => ⟨_, hdid, hactor⟩

end Step

/-! ## Revocations stay -/

theorem Keeps.refl : Keeps r r := ⟨.refl fun _ _ h => h, .refl fun _ _ h => h⟩

theorem Keeps.trans (h : Keeps r r') (h' : Keeps r' r'') : Keeps r r'' :=
  ⟨h.dids.trans (fun _ _ _ h h' height hheight => h' height (h height hheight)) h'.dids,
    h.tokens.trans (fun _ _ _ h h' height hheight => h' height (h height hheight)) h'.tokens⟩

theorem Cascaded.keeps (h : Cascaded did anchor (toRevoke r did) r r') : Keeps r r' where
  dids := h.dids ▸ .refl fun _ _ h => h
  tokens := by
    intro id token htoken
    rw [h.tokens]
    split
    · next hid =>
      obtain ⟨token', htoken', -, hnone⟩ := mem_toRevoke.mp hid
      obtain rfl := Option.some.inj (htoken.symm.trans htoken')
      exact ⟨token.cascade anchor, by simp [htoken], by simp [hnone]⟩
    · exact ⟨token, htoken, fun _ h => h⟩

theorem keeps_setDid (h : ∀ old, r.dids.get did = some old → old.revokedAt = none) :
    Keeps r (addEvent event (setDid did record r)) where
  dids := by
    cases hget : r.dids.get did with
    | none => exact .insert_new (fun _ _ h => h) hget
    | some old => exact .insert_over (fun _ _ h => h) hget (by simp [h old hget])
  tokens := .refl fun _ _ h => h

theorem keeps_setToken (h : ∀ old, r.capabilities.get tokenId = some old →
      ∀ height, old.revokedAt = some height → token.revokedAt = some height) :
    Keeps r (addEvent event (setToken tokenId token { r with nextCapabilityId := next })) where
  dids := .refl fun _ _ h => h
  tokens := by
    cases hget : r.capabilities.get tokenId with
    | none => exact .insert_new (fun _ _ h => h) hget
    | some old => exact .insert_over (fun _ _ h => h) hget (h old hget)

theorem Step.keeps (hr : Consistent r) (h : Step r call reply r') : Keeps r r' := by
  cases h with
  | registerDid hnew => exact keeps_setDid (by simp [hnew])
  | @issueCapability _ _ _ _ _ tokenId _ _ _ _ _ _ hid =>
    refine keeps_setToken fun old hget => ?_
    have hle := ((hr.ids tokenId).mp (by simp [hget])).2
    omega
  | revokeAgain | renewAgain => exact .refl
  | revokeCapability htoken _ _ hfirst => exact keeps_setToken (by simp [htoken, hfirst])
  | renewCapability htoken => exact keeps_setToken (by simp [htoken])
  | revokeDidAgain _ _ _ hcascade => exact hcascade.keeps
  | @revokeDid _ did _ _ event _ hdid _ hfirst _ hcascade =>
    have hkeeps := Cascaded.keeps (r := addEvent event (setDid did _ r)) hcascade
    exact (keeps_setDid (by simp [hdid, hfirst])).trans hkeeps

/-! ## Every registry is consistent -/

theorem consistent_empty : Consistent ∅ where
  ids := by
    intro id
    change (∅ : OrdMap U64 CapabilityToken).get id ≠ none ↔ 1 ≤ id.toNat ∧ id.toNat ≤ 0
    simp
    omega
  tokens := by
    intro id token h
    cases h
  trail := rfl
  short := by decide

theorem Cascaded.get_ne_none (h : Cascaded did anchor ids r r') :
    r'.capabilities.get tokenId ≠ none ↔ r.capabilities.get tokenId ≠ none := by
  rw [h.tokens]
  split <;> simp

/-- A token that stays well formed when its identifier does not change. -/
theorem CapabilityToken.Sound.of_dids (h : token.Sound r tokenId)
    (hdids : r'.dids.get token.subjectDid = r.dids.get token.subjectDid) :
    token.Sound r' tokenId := ⟨h.id, hdids ▸ h.subject, h.revoked⟩

/-- After the cascade of `did` the tokens of `did` are revoked, and no other identifier changed. -/
theorem Cascaded.sound (h : Cascaded did anchor (toRevoke before did) r r')
    (hbefore : Consistent before) (hsame : r.capabilities = before.capabilities)
    (hcreated : Extends (fun d d' => d'.createdAt = d.createdAt) before.dids r.dids)
    (hothers : ∀ name, name ≠ did → r.dids.get name = before.dids.get name)
    (htoken : r'.capabilities.get tokenId = some token) : token.Sound r' tokenId := by
  rw [h.tokens, hsame] at htoken
  split at htoken
  · next hid =>
    obtain ⟨old, hold, -⟩ := mem_toRevoke.mp hid
    rw [hold, Option.map_some, Option.some.injEq] at htoken
    subst htoken
    have hsound := hbefore.tokens tokenId old hold
    obtain ⟨record, hrecord, hissued, -⟩ := hsound.subject
    obtain ⟨record', hrecord', hheight⟩ := hcreated _ record hrecord
    refine ⟨hsound.id, ⟨record', by rw [h.dids]; exact hrecord', hheight ▸ hissued, ?_⟩, ?_⟩
    · exact fun _ hnone => by cases hnone
    · rintro _ ⟨⟩
      exact le_max_right _ _
  · next hid =>
    have hsound := hbefore.tokens tokenId token htoken
    by_cases hsubject : token.subjectDid = did
    · obtain ⟨record, hrecord, hissued, -⟩ := hsound.subject
      obtain ⟨record', hrecord', hheight⟩ := hcreated _ record hrecord
      refine ⟨hsound.id, ⟨record', by rw [h.dids]; exact hrecord', hheight ▸ hissued, ?_⟩,
        hsound.revoked⟩
      exact fun _ hnone => hid (mem_toRevoke.mpr ⟨token, htoken, hsubject, hnone⟩)
    · exact hsound.of_dids (by rw [h.dids, hothers _ hsubject])

namespace Step

theorem numbered (hr : Consistent r) (h : Step r call reply r') (id : U64) :
    r'.capabilities.get id ≠ none ↔ 1 ≤ id.toNat ∧ id.toNat ≤ r'.nextCapabilityId.toNat := by
  cases h with
  | registerDid | revokeAgain | renewAgain => exact hr.ids id
  | @issueCapability _ _ _ _ _ tokenId _ _ _ _ _ _ hid =>
    simp only [addEvent, setToken, get_insert]
    split
    · next heq =>
      subst heq
      simp [hid]
    · next hne =>
      have hnat : tokenId.toNat ≠ id.toNat := fun heq => hne (BitVec.eq_of_toNat_eq heq)
      rw [hr.ids id]
      omega
  | revokeCapability htoken | renewCapability htoken =>
    simp only [addEvent, setToken, get_insert]
    split
    · next heq => simpa [← heq, htoken] using hr.ids id
    · exact hr.ids id
  | revokeDidAgain _ _ _ hcascade | revokeDid _ _ _ _ hcascade =>
    rw [hcascade.get_ne_none, hcascade.next]
    exact hr.ids id

theorem tokens (hr : Consistent r) (h : Step r call reply r') {id : U64}
    (htoken : r'.capabilities.get id = some token) : token.Sound r' id := by
  cases h with
  | @registerDid did _ _ _ hnew =>
    have hsound := hr.tokens id token htoken
    obtain ⟨record, hrecord, -⟩ := hsound.subject
    refine hsound.of_dids (get_insert_ne ?_)
    rintro rfl
    simp [hnew] at hrecord
  | @issueCapability _ _ _ _ _ _ record _ hdid hactive _ hcreated =>
    obtain ⟨rfl, rfl⟩ | ⟨-, hold⟩ := get_insert_cases htoken
    · exact ⟨rfl, ⟨record, hdid, hcreated, fun h => (h hactive).elim⟩, fun _ h => by cases h⟩
    · exact (hr.tokens id token hold).of_dids rfl
  | revokeAgain | renewAgain => exact hr.tokens id token htoken
  | revokeCapability hget _ _ _ hissued =>
    obtain ⟨rfl, rfl⟩ | ⟨-, hold⟩ := get_insert_cases htoken
    · have hsound := hr.tokens _ _ hget
      obtain ⟨record, hrecord, hcreated, -⟩ := hsound.subject
      refine ⟨hsound.id, ⟨record, hrecord, hcreated, fun _ h => by cases h⟩, fun height h => ?_⟩
      obtain rfl := Option.some.inj h
      exact hissued
    · exact (hr.tokens id token hold).of_dids rfl
  | renewCapability hget =>
    obtain ⟨rfl, rfl⟩ | ⟨-, hold⟩ := get_insert_cases htoken
    · have hsound := hr.tokens _ _ hget
      exact ⟨hsound.id, hsound.subject, hsound.revoked⟩
    · exact (hr.tokens id token hold).of_dids rfl
  | revokeDidAgain _ _ _ hcascade =>
    exact hcascade.sound hr rfl (.refl fun _ => rfl) (fun _ _ => rfl) htoken
  | revokeDid hdid _ _ _ hcascade =>
    exact hcascade.sound hr rfl (.insert_over (fun _ => rfl) hdid rfl)
      (fun _ hne => get_insert_ne (Ne.symm hne)) htoken

theorem consistent (hr : Consistent r) (h : Step r call reply r') : Consistent r' := by
  obtain ⟨⟨events, htrail, hevents⟩, -⟩ := h.recorded hr
  obtain ⟨hseqs, hshort⟩ := hevents.numbered hr.short
  refine ⟨h.numbered hr, fun _ _ => h.tokens hr, ?_, ?_⟩
  · rw [htrail, List.map_append, hr.trail, hseqs, Nat.add_comm _ 1, List.range'_append_1,
      List.length_append]
  · rw [htrail, List.length_append]
    exact hshort

end Step

/-! ## Runs -/

theorem Consistent.dead (hr : Consistent r)
    (hdid : r.dids.get did = some record) (hrevoked : record.revokedAt = some height) :
    Dead r did height := by
  rintro id token htoken rfl
  obtain ⟨record', hrecord', -, hcascade⟩ := (hr.tokens id token htoken).subject
  obtain rfl := Option.some.inj (hdid.symm.trans hrecord')
  refine ⟨hcascade (by simp [hrevoked]), fun actor scope atHeight hheight hok => ?_⟩
  simp only [verifyCapability, bind_eq_ok, getOr_eq_ok, require_eq_ok] at hok
  obtain ⟨_, -, token', htoken', record', hrecord', _, hactive, -⟩ := hok
  obtain rfl := Option.some.inj (htoken.symm.trans htoken')
  obtain rfl := Option.some.inj (hdid.symm.trans hrecord')
  have hexpired : ¬ atHeight < height := not_lt.mpr hheight
  simp [DidRecord.isActiveAt, hrevoked, hexpired] at hactive

theorem Step.issued (h : Step r call reply r') : List.range' 1 r'.nextCapabilityId.toNat =
      List.range' 1 r.nextCapabilityId.toNat ++ (reply.map (fun id => id.toNat)).toList := by
  cases h with
  | registerDid | revokeAgain | renewAgain | revokeCapability | renewCapability =>
    exact (List.append_nil _).symm
  | issueCapability _ _ _ _ hid =>
    simp only [addEvent, setToken, hid, List.range'_1_concat, Option.map_some, Option.toList_some,
      Nat.add_comm 1]
  | revokeDidAgain _ _ _ hcascade | revokeDid _ _ _ _ hcascade =>
    rw [hcascade.next]
    exact (List.append_nil _).symm

theorem Sound.returned_snoc (hts : Sound ts r)
    (h : Step r call reply r') : Sound (ts ++ [⟨r, ⟨call, .ok reply⟩, r'⟩]) r' := by
  have hconsistent := h.consistent hts.consistent
  have hkeeps := h.keeps hts.consistent
  obtain ⟨⟨events, htrail, hevents⟩, hpermitted⟩ := h.recorded hts.consistent
  have hkept : ∀ t ∈ ts ++ [⟨r, ⟨call, .ok reply⟩, r'⟩], Keeps t.after r' := by
    refine List.forall_mem_append.mpr ⟨fun t ht => (hts.kept t ht).trans hkeeps, ?_⟩
    exact List.forall_mem_singleton.mpr .refl
  refine ⟨hconsistent, ?_, hkept, fun t ht did record height hdid hrevoked => ?_, ?_, ?_⟩
  · rw [List.filterMap_append, List.map_append, hts.issued, h.issued]
    cases reply <;> rfl
  · obtain ⟨record', hrecord', hsame⟩ := (hkept t ht).dids did record hdid
    exact hconsistent.dead hrecord' (hsame height hrevoked)
  · refine List.forall_mem_append.mpr ⟨hts.returned, List.forall_mem_singleton.mpr fun _ _ => ?_⟩
    exact ⟨⟨h.subject, hpermitted⟩, events, htrail, hevents.targets⟩
  · refine List.forall_mem_append.mpr ⟨hts.failed, List.forall_mem_singleton.mpr ?_⟩
    exact fun _ heq => by cases heq

theorem Sound.failed_snoc (hts : Sound ts r) : Sound (ts ++ [⟨r, ⟨call, .error e⟩, r⟩]) r := by
  have hkept : ∀ t ∈ ts ++ [⟨r, ⟨call, .error e⟩, r⟩], Keeps t.after r :=
    List.forall_mem_append.mpr ⟨hts.kept, List.forall_mem_singleton.mpr .refl⟩
  refine ⟨hts.consistent, ?_, hkept, fun t ht did record height hdid hrevoked => ?_, ?_, ?_⟩
  · rw [List.filterMap_append, List.map_append, hts.issued]
    exact List.append_nil _
  · obtain ⟨record', hrecord', hsame⟩ := (hkept t ht).dids did record hdid
    exact hts.consistent.dead hrecord' (hsame height hrevoked)
  · refine List.forall_mem_append.mpr ⟨hts.returned, List.forall_mem_singleton.mpr ?_⟩
    exact fun _ heq => by cases heq
  · exact List.forall_mem_append.mpr ⟨hts.failed, List.forall_mem_singleton.mpr fun _ _ => rfl⟩

/-- Revocation is sound in every run of calls on a default registry. -/
theorem run_sound {ts : List RegistryTurn} (h : Run ts r) : Sound ts r := by
  refine Runs.induction (fun _ _ => perform_safe) ⟨consistent_empty, rfl, ?_, ?_, ?_, ?_⟩
    (fun _ _ _ _ _ hts hstep => hts.returned_snoc hstep) (fun _ _ _ _ hts => hts.failed_snoc) h
  all_goals exact fun t ht => by cases ht

end

/-- A token issued at a later height than the one at which its identifier is revoked, and a call
that comes too late. -/
def sampleCalls : List Call :=
  [.registerDid "did:trnm:a" "alice" 5,
    .issueCapability "alice" "did:trnm:a" .auditRead 9 none,
    .renewCapability "alice" 1 9 (some 20),
    .revokeDid "alice" "did:trnm:a" 7,
    .issueCapability "alice" "did:trnm:a" .auditRead 9 none]

theorem sampleCalls_sound : Run (attempt Call.perform ∅ sampleCalls).1
    (attempt Call.perform ∅ sampleCalls).2 ∧ Sound (attempt Call.perform ∅ sampleCalls).1
      (attempt Call.perform ∅ sampleCalls).2 := by
  have hreplies : (attempt Call.perform ∅ sampleCalls).1.map (fun t => t.label.reply) =
      [.ok none, .ok (some 1), .ok none, .ok none,
        .error (.coded (.didRevoked "did:trnm:a"))] := by
    decide +kernel
  have hrun : Run _ _ := Runs.nil.attempt sampleCalls fun t ht e he => by
    have hmem : Except.error e ∈ (attempt Call.perform ∅ sampleCalls).1.map
        (fun t => t.label.reply) := List.mem_map.mpr ⟨t, ht, he⟩
    rw [hreplies] at hmem
    rintro ⟨message, rfl⟩
    simp at hmem
  exact ⟨hrun, run_sound hrun⟩

end Trillionnium.Identity
