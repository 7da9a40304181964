import Line21.Conversion

/-!
# The store of live streams

Clients feed streams one request at a time, so a stream has to live longer than a request.
The store keeps the sessions of streams by their ids, in the order in which they were made,
up to a limit. A session that nobody asked for during its time to live expires. Sessions
that leave the store have their streams start over.

Ids and times come from outside. Ids are fresh; the clock may go back. A time is an exact integer
here, and stands for the binary64 number of seconds that the clock of a machine gives. All that is
asked of times is which is earlier and how far they lie apart. Both are exact for binary64 numbers
within a factor of two of each other, so the integers differ from them only for a clock near zero
that is asked at times far apart.
-/

namespace Line21

/-- A live stream and what is counted about it. -/
structure Session where
  id : String
  format : Format
  link : Link Receiver Collector
  /-- When the session was made. -/
  created : Int
  /-- When the session was last asked for. -/
  updated : Int
  /-- The units pushed to the session. -/
  unitsIn : Nat := 0
  /-- The units that the session answered with. -/
  unitsOut : Nat := 0

namespace Session

/-- A session that starts at a time, with its format agreed upon. -/
def opened (id : String) (format : Format) (now : Int) : Session :=
  { id, format, link := .opened format, created := now, updated := now }

/-- What a session announced to its client. -/
def caps (s : Session) : Caps := s.link.downstream.announced.getD s.format.caps

/-- A session whose stream has started over. -/
def closed (s : Session) : Session := { s with link := s.link.restart }

end Session

/-- The store is full. -/
structure StoreFull where
  limit : Int
  deriving DecidableEq, Repr

/-- The text of the error that the store is full. -/
def StoreFull.message (e : StoreFull) : String :=
  "Maximum number of concurrent streams (" ++ toString e.limit ++ ") reached"

/-- The sessions of streams. -/
structure Store where
  /-- How long a session lives that nobody asks for. -/
  timeToLive : Int := 3600
  /-- How many sessions may live at a time. -/
  limit : Int := 100
  /-- The sessions that live, in the order in which they were made. -/
  live : List Session := []
  /-- The sessions that have left, in the order in which they did. -/
  left : List Session := []

namespace Store

/-- Make a session, unless the store is full. -/
def create (s : Store) (id : String) (now : Int) (format : Format) : Except StoreFull Store :=
  if s.limit ≤ s.live.length then .error ⟨s.limit⟩
  else .ok { s with live := s.live ++ [.opened id format now] }

/-- The live session of an id. -/
def find? (s : Store) (id : String) : Option Session := s.live.find? (·.id == id)

/-- Change the live session of an id. -/
def modify (s : Store) (id : String) (f : Session → Session) : Store :=
  { s with live := s.live.map fun x ↦ if x.id == id then f x else x }

/-- Ask for the live session of an id, which counts as activity. -/
def get (s : Store) (id : String) (now : Int) : Option Session × Store :=
  let s := s.modify id ({ · with updated := now })
  (s.find? id, s)

/-- The live sessions, the oldest first; those of one age in the order they were made. -/
def list (s : Store) : List Session := s.live.mergeSort (·.created ≤ ·.created)

/-- Let the sessions leave for which a test holds. -/
def dismiss (s : Store) (leaves : Session → Bool) : Store :=
  { s with
    live := s.live.filter (!leaves ·)
    left := s.left ++ (s.live.filter leaves).map .closed }

/-- Delete the live session of an id, and tell whether there was one. -/
def delete (s : Store) (id : String) : Bool × Store :=
  ((s.find? id).isSome, s.dismiss (·.id == id))

/-- A session has been idle for longer than its time to live. -/
def isExpired (s : Store) (now : Int) (x : Session) : Bool := s.timeToLive < now - x.updated

/-- Let the sessions leave that have expired, and tell how many. -/
def expire (s : Store) (now : Int) : Nat × Store :=
  ((s.live.filter (s.isExpired now)).length, s.dismiss (s.isExpired now))

/-- The session of an id, live or not. -/
def findEver? (s : Store) (id : String) : Option Session :=
  s.find? id <|> s.left.find? (·.id == id)

/-- Making a session fails exactly when the store is full. -/
theorem create_eq_error_iff {s : Store} {id : String} {now : Int} {format : Format}
    {e : StoreFull} :
    s.create id now format = .error e ↔ s.limit ≤ s.live.length ∧ e = ⟨s.limit⟩ := by
  simp only [create]
  split
  · next h => simp [h, eq_comm]
  · next h => simp [h]

/-- A session that leaves is live no more. -/
theorem mem_live_dismiss {s : Store} {leaves : Session → Bool} {x : Session} :
    x ∈ (s.dismiss leaves).live ↔ x ∈ s.live ∧ leaves x = false := by
  simp [dismiss]

end Store

end Line21
