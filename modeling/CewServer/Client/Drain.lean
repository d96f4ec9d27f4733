import CewServer.Client.Terminated

/-!
# Draining a socket

`client_deregister` reads from the socket it has shut down until a read gives zero, and a worker has
one thread: as long as the loop runs, no other client is served. What a socket gives after `shutdown`
is some pieces that were still in it, and then the end of the stream for ever, or an error for ever.
The loop takes an error for one more piece.
-/

namespace CewServer.Client

open Http

/-- What the reads of a socket give, one after the other. -/
structure Drainage where
  counts : List Int
  positive : ∀ count ∈ counts, 0 < count
  last : Int
  settled : last = 0 ∨ last = -1

def Drainage.read (d : Drainage) (k : Nat) : Int := d.counts[k]?.getD d.last

/-- The first so many results. -/
def Drainage.reads (d : Drainage) (k : Nat) : List Int := (List.range k).map d.read

/-- The callback returns after some number of reads, with the socket closed and the record freed. -/
def Returns (w : Worker) (i : Nat) (event : List Int → Event) (d : Drainage) : Prop :=
  ∃ k t, w.step (event (d.reads k)) = some t ∧ t.aborted = false ∧
    ∃ r, t.records[i]? = some r ∧ r.freed = true ∧ r.psClientEv.sClient.iSockfd = 0

/-! ### The loop -/

namespace Drainage

variable (d : Drainage)

end Drainage

/-! ### The callbacks that drain -/

end CewServer.Client
