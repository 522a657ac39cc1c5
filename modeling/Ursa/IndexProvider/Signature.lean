/-
# IndexProvider.Signature — what an advertisement's signature binds

`sig_payload` hashes the concatenation of six fields: the previous link, the entries
link, the provider, the addresses, the metadata and the removal flag.  No field has its
length in front, and the context id is not among them.  Two advertisements with one
payload are therefore the same only if they cut these bytes at the same places and have
the same context (`signature_binds_iff`).
-/
import Ursa.IndexProvider.Provider
import Ursa.IndexProvider.PlainDeps

namespace Ursa.IndexProvider

set_option autoImplicit false

variable {K : Type}

namespace Advertisement

/-- The bytes that `sig_payload` hashes. -/
def signedBytes (ad : Advertisement) : Except AdSigError Bytes := do
  let previousIdBytes ← linkBytes .invalidPreviousID ad.previousID
  let entrychunkLinkBytes ← linkBytes .invalidEntryChunkLink ad.entries
  let metadata ← metadataBytes ad.metadata
  let isRmPayload : Bytes := if ad.isRm then [1] else [0]
  return previousIdBytes ++ entrychunkLinkBytes ++ asBytes ad.provider
    ++ (ad.addresses.map asBytes).flatten ++ metadata ++ isRmPayload

theorem sigPayload_eq (deps : Deps K) (ad : Advertisement) :
    ad.sigPayload deps = ad.signedBytes.map deps.sha256 := by
  unfold sigPayload signedBytes
  cases linkBytes .invalidPreviousID ad.previousID with
  | error e => rfl
  | ok previous =>
      cases linkBytes .invalidEntryChunkLink ad.entries with
      | error e => rfl
      | ok entries => cases metadataBytes ad.metadata <;> rfl

/-- The bytes of a link, none for an absent one. -/
def bytesOf (link : Option Cid) : Bytes := (link.map Cid.toBytes).getD []

theorem linkBytes_ok {invalid : AdSigError} {field : Option Ipld} {bytes : Bytes}
    (ok : linkBytes invalid field = .ok bytes) :
    ∃ link : Option Cid, field = link.map Ipld.link ∧ bytes = bytesOf link := by
  unfold linkBytes at ok
  split at ok
  · rename_i cid
    cases ok
    exact ⟨some cid, rfl, rfl⟩
  · cases ok
    exact ⟨none, rfl, rfl⟩
  · cases ok

/-- What an advertisement that can be signed looks like, and the bytes that are hashed. -/
theorem signedBytes_ok {ad : Advertisement} {bytes : Bytes} (ok : ad.signedBytes = .ok bytes) :
    ∃ (previous entries : Option Cid) (metadata : Bytes),
      ad.previousID = previous.map Ipld.link ∧ ad.entries = entries.map Ipld.link ∧
      ad.metadata = .bytes metadata ∧
      bytes = bytesOf previous ++ (bytesOf entries ++ (asBytes ad.provider ++
        ((ad.addresses.map asBytes).flatten ++ (metadata ++ [if ad.isRm then 1 else 0])))) := by
  unfold signedBytes at ok
  cases first : linkBytes .invalidPreviousID ad.previousID with
  | error e =>
      rw [first] at ok
      cases ok
  | ok previousBytes =>
      cases second : linkBytes .invalidEntryChunkLink ad.entries with
      | error e =>
          rw [first, second] at ok
          cases ok
      | ok entryBytes =>
          cases third : ad.metadata with
          | bytes metadata =>
              rw [first, second, third] at ok
              obtain ⟨previous, isPrevious, rfl⟩ := linkBytes_ok first
              obtain ⟨entries, isEntries, rfl⟩ := linkBytes_ok second
              refine ⟨previous, entries, metadata, isPrevious, isEntries, rfl, ?_⟩
              have flag : (if ad.isRm then [1] else [0] : Bytes) = [if ad.isRm then 1 else 0] := by
                split <;> rfl
              cases ok
              simp only [flag, List.append_assoc]
          | _ =>
              rw [first, second, third] at ok
              cases ok

/-! ## Where the bytes are cut -/

/-- The number of bytes of a link. -/
def linkLength : Ipld → Nat
  | .link cid => cid.toBytes.length
  | _ => 0

/-- The two advertisements have the same context, and lay the same number of bytes down
for each field that comes before the metadata. -/
structure SameLayout (a b : Advertisement) : Prop where
  contextID : a.contextID = b.contextID
  previousID : a.previousID.map linkLength = b.previousID.map linkLength
  entries : a.entries.map linkLength = b.entries.map linkLength
  provider : (asBytes a.provider).length = (asBytes b.provider).length
  addresses : a.addresses.map (fun s => (asBytes s).length) =
    b.addresses.map (fun s => (asBytes s).length)

/-- The two advertisements say the same, signatures apart. -/
structure Agree (a b : Advertisement) : Prop where
  previousID : a.previousID = b.previousID
  entries : a.entries = b.entries
  provider : a.provider = b.provider
  addresses : a.addresses = b.addresses
  contextID : a.contextID = b.contextID
  metadata : a.metadata = b.metadata
  isRm : a.isRm = b.isRm

theorem Agree.sameLayout {a b : Advertisement} (agree : Agree a b) : SameLayout a b where
  contextID := agree.contextID
  previousID := by rw [agree.previousID]
  entries := by rw [agree.entries]
  provider := by rw [agree.provider]
  addresses := by rw [agree.addresses]

theorem length_bytesOf {link link' : Option Cid}
    (same : (link.map Ipld.link).map linkLength = (link'.map Ipld.link).map linkLength) :
    (bytesOf link).length = (bytesOf link').length := by
  cases link <;> cases link' <;> simp_all [bytesOf, linkLength]

/-- Links of one length with the same bytes are the same. -/
theorem eq_of_bytesOf {link link' : Option Cid}
    (same : (link.map Ipld.link).map linkLength = (link'.map Ipld.link).map linkLength)
    (bytes : bytesOf link = bytesOf link') : link = link' := by
  cases link with
  | none =>
      cases link' with
      | none => rfl
      | some cid' => simp at same
  | some cid =>
      cases link' with
      | none => simp at same
      | some cid' =>
          have toBytes : cid.toBytes = cid'.toBytes := bytes
          rw [← convertCid_toBytes cid, toBytes, convertCid_toBytes]

/-- Cut at the same places, the same bytes are the same fields. -/
theorem SameLayout.agree {a b : Advertisement} (layout : SameLayout a b) {bytes : Bytes}
    (okA : a.signedBytes = .ok bytes) (okB : b.signedBytes = .ok bytes) : Agree a b := by
  obtain ⟨previous, entries, metadata, isPrevious, isEntries, isMetadata, cutA⟩ := signedBytes_ok okA
  obtain ⟨previous', entries', metadata', isPrevious', isEntries', isMetadata', cutB⟩ :=
    signedBytes_ok okB
  have lengths := layout.previousID
  rw [isPrevious, isPrevious'] at lengths
  have lengths' := layout.entries
  rw [isEntries, isEntries'] at lengths'
  obtain ⟨samePrevious, rest⟩ := List.append_inj (cutA.symm.trans cutB) (length_bytesOf lengths)
  obtain ⟨sameEntries, rest⟩ := List.append_inj rest (length_bytesOf lengths')
  obtain ⟨sameProvider, rest⟩ := List.append_inj rest layout.provider
  have each : (a.addresses.map asBytes).map List.length = (b.addresses.map asBytes).map List.length := by
    rw [List.map_map, List.map_map]
    exact layout.addresses
  have total : ((a.addresses.map asBytes).flatten).length =
      ((b.addresses.map asBytes).flatten).length := by
    rw [List.length_flatten, List.length_flatten, each]
  obtain ⟨sameTexts, rest⟩ := List.append_inj rest total
  -- The flag is the last byte; what is left in front of it is the metadata.
  obtain ⟨sameMetadata, sameFlag⟩ := List.append_inj' rest rfl
  have sameAddresses : a.addresses.map asBytes = b.addresses.map asBytes :=
    List.eq_iff_flatten_eq.mpr ⟨sameTexts, each⟩
  refine ⟨?_, ?_, DagCbor.utf8_inj sameProvider, ?_, layout.contextID, ?_, ?_⟩
  · rw [isPrevious, isPrevious', eq_of_bytesOf lengths samePrevious]
  · rw [isEntries, isEntries', eq_of_bytesOf lengths' sameEntries]
  · exact List.map_injective_iff.mpr (fun _ _ same => DagCbor.utf8_inj same) sameAddresses
  · rw [isMetadata, isMetadata', sameMetadata]
  · cases flagA : a.isRm <;> cases flagB : b.isRm <;> simp_all

end Advertisement

open Advertisement

/-- **What a signature binds.**  Two advertisements with one payload, on whose bytes the
hash has no collision, agree on all their fields exactly if they have the same context and
lay down the same number of bytes for both links, the provider and each address. -/
theorem signature_binds_iff (deps : Deps K) (a b : Advertisement) (payload : Bytes)
    (payloadA : a.sigPayload deps = .ok payload) (payloadB : b.sigPayload deps = .ok payload)
    (noCollision : ∀ x y, a.signedBytes = .ok x → b.signedBytes = .ok y →
      deps.sha256 x = deps.sha256 y → x = y) :
    Agree a b ↔ SameLayout a b := by
  constructor
  · exact Agree.sameLayout
  · intro layout
    rw [sigPayload_eq] at payloadA payloadB
    cases okA : a.signedBytes with
    | error e =>
        rw [okA] at payloadA
        cases payloadA
    | ok x =>
        cases okB : b.signedBytes with
        | error e =>
            rw [okB] at payloadB
            cases payloadB
        | ok y =>
            rw [okA] at payloadA
            rw [okB] at payloadB
            have hashes : deps.sha256 x = deps.sha256 y :=
              (Except.ok.inj payloadA).trans (Except.ok.inj payloadB).symm
            obtain rfl := noCollision x y okA okB hashes
            exact layout.agree okA okB

/-- An advertisement and the same one with a signature. -/
theorem signature_binds_iff_signed :
    Agree (Advertisement.new [1] ⟨"12D3KooW"⟩ ["/ip4/127.0.0.1/tcp/6009"] false)
      { Advertisement.new [1] ⟨"12D3KooW"⟩ ["/ip4/127.0.0.1/tcp/6009"] false with
        signature := .bytes [1, 2, 3] } := by
  refine (signature_binds_iff plainDeps _ _ _ rfl rfl ?_).mpr ⟨rfl, rfl, rfl, rfl, rfl⟩
  intro x y _ _ same
  simpa [plainDeps] using same

/-- Advertisements for two contexts have one payload, and so have two whose addresses are
cut at different places. -/
theorem different_ads_with_one_payload :
    (∃ payload,
      (Advertisement.new [1] ⟨"12D3KooW"⟩ ["/ip4"] false).sigPayload plainDeps = .ok payload ∧
      (Advertisement.new [2] ⟨"12D3KooW"⟩ ["/ip4"] false).sigPayload plainDeps = .ok payload ∧
      ¬ Agree (Advertisement.new [1] ⟨"12D3KooW"⟩ ["/ip4"] false)
        (Advertisement.new [2] ⟨"12D3KooW"⟩ ["/ip4"] false)) ∧
    ∃ payload,
      (Advertisement.new [1] ⟨"12D3KooW"⟩ ["/ip4", "/tcp"] false).sigPayload plainDeps = .ok payload ∧
      (Advertisement.new [1] ⟨"12D3KooW"⟩ ["/ip4/tcp"] false).sigPayload plainDeps = .ok payload ∧
      ¬ Agree (Advertisement.new [1] ⟨"12D3KooW"⟩ ["/ip4", "/tcp"] false)
        (Advertisement.new [1] ⟨"12D3KooW"⟩ ["/ip4/tcp"] false) := by
  refine ⟨⟨_, rfl, rfl, ?_⟩, ⟨_, rfl, rfl, ?_⟩⟩
  · intro agree
    have same := agree.contextID
    simp [Advertisement.new] at same
  · intro agree
    have same := agree.addresses
    simp [Advertisement.new] at same

end Ursa.IndexProvider
