import BugMuseum.Cascade.PeekedBlob

namespace BugMuseum
namespace Cascade

open Foundation

/-!
# The two ways of a push

A push over TCP copies the first blob of the bundle to a buffer of 64 bytes before
anything has looked at the bundle.  The length of the copy is the one that the bundle
declares, so the two transports ingest a push alike as long as the first blob
is no longer than the buffer, and a longer one leaves the buffer.
-/

/-- A push over TCP has the outcome of the same push over the pipe, and the
copy of the blob stays inside its buffer. -/
structure PushesAlike (env : ServiceEnv) (store : CfgProfile) (payload : Bytes) : Prop where
  sameStore : (handlePush env true store payload).store = (handlePush env false store payload).store
  sameReply : (handlePush env true store payload).reply = (handlePush env false store payload).reply
  inBounds : (handlePush env true store payload).copied ≤ scratchSize

/-- The first blob of a payload, if there is one, declares no more bytes than
`scratch` has. -/
def FirstBlobFits (arch : Arch) (payload : Bytes) : Prop :=
  forall declared, FirstBlobDeclares arch payload declared -> declared ≤ scratchSize

/-- On a bundle, followed by anything, this is a condition on its first entry
of that type. -/
theorem firstBlobFits_bundle (arch : Arch) (b : Bundle) (rest : Bytes)
    (short : (b.encode ++ rest).length < 2 ^ 31) :
    FirstBlobFits arch (b.encode ++ rest) ↔
      forall e, b.entries.find? (fun e => e.head.isBlob) = some e -> e.value.length ≤ scratchSize := by
  have found := peekFirstBlob_bundle arch b rest short
  constructor
  · intro fits e first
    rw [first, Option.map_some, Option.map_eq_some_iff] at found
    rcases found with ⟨blob, peeked, declared⟩
    exact declared ▸ fits blob.2 ((peekFirstBlob_iff arch short blob.2).mp ⟨blob.1, peeked⟩)
  · intro fits declared first
    rcases (peekFirstBlob_iff arch short declared).mpr first with ⟨value, peeked⟩
    rw [peeked, Option.map_some] at found
    rcases Option.map_eq_some_iff.mp found.symm with ⟨e, entry, same⟩
    exact same.ge.trans (fits e entry)

/-- What the fast path copies is what the bundle declares, whether or not that
is the true length. -/
theorem handlePush_copied (env : ServiceEnv) (store : CfgProfile) (payload : Bytes) :
    (handlePush env true store payload).copied =
      match peekFirstBlob env.parse.arch payload with
      | some blob => blob.2
      | none => 0 := by
  rw [handlePush]
  dsimp only
  rw [if_pos rfl]
  cases peekFirstBlob env.parse.arch payload with
  | none => rfl
  | some blob =>
      dsimp only
      split
      · rfl
      · rfl

/-- Over the pipe a push is the ingest and nothing else. -/
theorem handlePush_pipe (env : ServiceEnv) (store : CfgProfile) (payload : Bytes) :
    handlePush env false store payload = { ingest env store payload with copied := 0 } := by
  rfl

/-- Over TCP it is the same ingest, unless the copy has left its buffer. -/
theorem handlePush_tcp {env : ServiceEnv} {payload : Bytes} (short : payload.length < 2 ^ 31)
    (fits : FirstBlobFits env.parse.arch payload) (store : CfgProfile) : exists copied, copied ≤ scratchSize ∧
      handlePush env true store payload = { ingest env store payload with copied } := by
  rw [handlePush]
  dsimp only
  rw [if_pos rfl]
  cases peeked : peekFirstBlob env.parse.arch payload with
  | none => exact ⟨0, Nat.zero_le _, if_neg (Nat.not_lt_zero _)⟩
  | some blob =>
      have small : blob.2 ≤ scratchSize :=
        fits blob.2 ((peekFirstBlob_iff env.parse.arch short blob.2).mp ⟨blob.1, peeked⟩)
      exact ⟨blob.2, small, if_neg (Nat.not_lt.mpr small)⟩

/-- The transports agree on a push exactly when the first blob fits into the
64 bytes that the fast path of TCP copies it to.  With a longer one the copy
leaves its buffer, before anything has looked at the bundle. -/
theorem pushesAlike_iff_firstBlobFits (env : ServiceEnv) (store : CfgProfile) (payload : Bytes)
    (bounded : payload.length ≤ cascadeMaxPayload) :
    PushesAlike env store payload ↔ FirstBlobFits env.parse.arch payload := by
  have short : payload.length < 2 ^ 31 := by
    simp only [cascadeMaxPayload] at bounded
    omega
  constructor
  · intro alike declared first
    rcases (peekFirstBlob_iff env.parse.arch short declared).mpr first with ⟨value, peeked⟩
    have copied := alike.inBounds
    rw [handlePush_copied, peeked] at copied
    exact copied
  · intro fits
    rcases handlePush_tcp short fits store with ⟨copied, small, same⟩
    constructor
    · rw [same, handlePush_pipe]
    · rw [same, handlePush_pipe]
    · rw [same]
      exact small

/-- Every allocation succeeds, and a mishap has no consequences. -/
def calmService : ServiceEnv where
  parse := calm
  payload := true
  merge := fun _ => granted
  norm := fun _ => 0
  out := .ofNat 256 0
  undefined := fun _ store => answer store []

theorem greeting_pushesAlike : PushesAlike calmService cfgNew greeting.encode := by
  apply (pushesAlike_iff_firstBlobFits calmService cfgNew greeting.encode (by decide)).mpr
  intro declared first
  rcases (peekFirstBlob_iff .x86 (by decide) declared).mpr first with ⟨value, peeked⟩
  have blobless : peekFirstBlob .x86 greeting.encode = none := rfl
  cases blobless.symm.trans peeked

/-- A bundle with a blob of 65 bytes. -/
def signature : Bundle where
  flags := greeting.flags
  entries := [⟨ascii "signature", 2, List.replicate 65 7, by decide, by decide⟩]
  fits := by decide

theorem signature_overruns :
    signature.encode.length ≤ cascadeMaxPayload ∧ ¬ PushesAlike calmService cfgNew signature.encode := by
  constructor
  · decide
  · intro alike
    have copied := alike.inBounds
    rw [handlePush_copied] at copied
    revert copied
    decide

end Cascade
end BugMuseum
