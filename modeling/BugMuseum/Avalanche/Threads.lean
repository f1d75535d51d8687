import BugMuseum.Avalanche.Cached
import BugMuseum.Foundation.ServerThreads

namespace BugMuseum
namespace Avalanche

open Foundation

/-!
# The threads of the cache server

`cached` reads one request on each connection, in as many pieces as the transport likes,
and handles it under `g_lock`.  The pipe thread and the TCP loop do so at the same time.
What they do comes to whole connections, one after the other, each on the bytes that its
client sends.
-/

theorem withinPayload (header : Header) (fits : PLift (header.valueLen ≤ avlMaxPayload)) :
    header.valueLen ≤ avlMaxPayload :=
  fits.down

def receivePayload (grant : RequestGrant) (header : Header) (s : Stream) : Except Bytes Request := do
  failIf (ascii "ERR op\n") (header.op > opStats)
  let fits ← atMost (ascii "ERR too big\n") header.valueLen avlMaxPayload
  failIf [] (header.keyLen ≠ 0 ∧ grant.keyBytes = false)
  let (kb, s) ← s.takeField [] header.keyLen
  failIf [] (grant.key = false)
  failIf [] (header.valueLen ≠ 0 ∧ grant.value = false)
  let (value, _) ← s.takeField [] header.valueLen
  return { header, key := cstr kb.1, value, fits := withinPayload header fits }

/-- The reading half of `serve`, on a connection.  The header and each field
may come in several pieces. -/
def receiveRequest (grant : RequestGrant) (s : Stream) : Except Bytes Request := do
  let (packed, s) ← s.takeField [] 8
  receivePayload grant (Header.read packed) s

theorem receivePayload_agrees (grant : RequestGrant) (header : Header) (s : Stream) :
    Agrees Eq (receivePayload grant header s) (readPayload grant header s.input) := by
  rw [receivePayload, readPayload]
  apply Agrees.bind_failIf
  intro _
  by_cases within : header.valueLen ≤ avlMaxPayload
  · rw [atMost_of_le within]
    apply Agrees.bind_failIf
    intro _
    apply (s.takeField_agrees _ _).bind
    rintro ⟨key, behind⟩ ⟨_, rest⟩ ⟨rfl, rfl⟩
    apply Agrees.bind_failIf
    intro _
    apply Agrees.bind_failIf
    intro _
    apply (behind.takeField_agrees _ _).bind
    rintro ⟨value, _⟩ ⟨_, _⟩ ⟨rfl, rfl⟩
    exact .read rfl
  · rw [atMost, dif_neg within]
    exact .failed _

/-- The pieces do not matter: what is read is what would be read from all the
bytes at once. -/
theorem receiveRequest_eq (grant : RequestGrant) (s : Stream) :
    receiveRequest grant s = readRequest grant s.input := by
  have agrees : Agrees Eq (receiveRequest grant s) (readRequest grant s.input) := by
    rw [receiveRequest, readRequest]
    apply (s.takeField_agrees _ _).bind
    rintro ⟨packed, behind⟩ ⟨_, rest⟩ ⟨rfl, rfl⟩
    exact receivePayload_agrees grant _ behind
  rcases agrees.outcome with ⟨refusal, received, read⟩ | ⟨r, _, received, read, rfl⟩
  · rw [received, read]
  · rw [received, read]

/-- `serve`, in any of the threads.  There is no cache once the server has
crashed. -/
def cached (platform : Platform) : OneShot (Option Cache) Request RequestGrant where
  receive := fun _ grant s => receiveRequest grant s
  handle := fun isTcp r grant shared =>
    match shared with
    | none => (none, [])
    | some c =>
        match dispatch platform isTcp c r grant with
        | (c, some reply) => (some c, reply)
        | (_, none) => (none, [])

/-- The allocations during the reads of a request, and in its handler.  They
are made at different times. -/
def grantOf (reading handling : RequestGrant) : RequestGrant :=
  { handling with keyBytes := reading.keyBytes, key := reading.key, value := reading.value }

theorem cached_serve (platform : Platform) (c : Cache) (call : Exchange RequestGrant) :
    (cached platform).serve (some c) call =
      match serve platform call.isTcp c (grantOf call.reading call.handling) call.s.input with
      | (c, some reply) => (some c, reply)
      | (_, none) => (none, []) := by
  have read : readRequest (grantOf call.reading call.handling) call.s.input =
      (cached platform).receive call.isTcp call.reading call.s :=
    (receiveRequest_eq call.reading call.s).symm
  rw [OneShot.serve, serve, read]
  cases (cached platform).receive call.isTcp call.reading call.s with
  | error refusal => rfl
  | ok r => rfl

/-- Whatever the threads do and however their steps interleave: the cache and
the replies are those of whole connections, served one after the other in the
order in which they took the lock, each on the bytes of its client, whatever
the pieces in which they arrive. -/
theorem cached_threads (platform : Platform) (nbuckets : UInt32)
    (cut : (cached platform).service.Cut) (turns : List (Turn Nat (Doing RequestGrant) RequestGrant)) :
    let start := cacheNew nbuckets true true
    let acts := (Service.Cut.start start).acts cut.program turns
    let calls := emitted (cached platform).service.act (cached platform).exchangeOf
      (Service.idle Nat (RequestGrant × Request) start) acts
    (acts.map Act.turn).Sublist turns ∧
      (cached platform).Decided (run cut.program.step (Service.Cut.start start) turns).finish
        (run (cached platform).follow (start, fun _ => []) calls) ∧
      forall c call, (cached platform).serve (some c) call =
        match serve platform call.isTcp c (grantOf call.reading call.handling) call.s.input with
        | (c, some reply) => (some c, reply)
        | (_, none) => (none, []) := by
  refine ⟨Interleaved.acts_sublist cut.program turns, ?_, fun c call => cached_serve platform c call⟩
  exact (cached platform).serializes cut _ turns

end Avalanche
end BugMuseum
