import EventPost.Stamp.Basic

/-!
Stamps asked for by many calls at once. The two counters are all that the calls share. A call reads
the last number, offers the next one in its place, and tries again when another call has come
between; then it works its number out once more from the one that it replaced, and raises the last
time. Each of these is one step, and the steps of the calls follow each other in any order.
-/

namespace EventPost

/-- What becomes of a call for which there is no next number of 64 bits: it never returns, or its
number wraps around. -/
inductive Overflow
  | stops
  | wraps
  deriving DecidableEq, Repr

def Stamp.next? (o : Overflow) (last now : Int64) : Option Int64 :=
  if o = .stops ∧ last = Int64.maxValue then none else some (nextId last now)

inductive Phase
  | idle
  | trying (seen : Int64)
  /-- The call has put its number in place of this one. -/
  | replaced (last : Int64)
  | numbered (id : Int64)
  | done (id time : Int64)
  deriving DecidableEq, Repr

inductive Act
  | load
  | exchange
  | retry
  | number
  | raise
  deriving DecidableEq, Repr

structure Move (n : Nat) where
  call : Fin n
  act : Act
  deriving DecidableEq, Repr

structure Crowd (n : Nat) where
  counters : Counters
  phases : Fin n → Phase

namespace Crowd

variable {n : Nat}

def start : Crowd n := ⟨.initial, fun _ => .idle⟩

def put (s : Crowd n) (i : Fin n) (p : Phase) (c : Counters) : Crowd n :=
  ⟨c, fun j => if j = i then p else s.phases j⟩

@[simp] theorem put_self (s : Crowd n) (i : Fin n) (p : Phase) (c : Counters) :
    (s.put i p c).phases i = p := if_pos rfl

theorem put_other (s : Crowd n) {i j : Fin n} (h : j ≠ i) (p : Phase) (c : Counters) :
    (s.put i p c).phases j = s.phases j := if_neg h

/-- One step of one call. An offer may fail even though the counter holds what the call has read,
and a failed offer shows what the counter holds. -/
inductive Step (o : Overflow) (clock : Fin n → Int64) : Crowd n → Move n → Crowd n → Prop
  | load {s : Crowd n} {i : Fin n} : s.phases i = .idle →
    Step o clock s ⟨i, .load⟩ (s.put i (.trying s.counters.lastId) s.counters)
  | exchange {s : Crowd n} {i : Fin n} {id : Int64} : s.phases i = .trying s.counters.lastId →
    Stamp.next? o s.counters.lastId (clock i) = some id →
    Step o clock s ⟨i, .exchange⟩
      (s.put i (.replaced s.counters.lastId) ⟨id, s.counters.lastTime⟩)
  | retry {s : Crowd n} {i : Fin n} {seen id : Int64} : s.phases i = .trying seen →
    Stamp.next? o seen (clock i) = some id →
    Step o clock s ⟨i, .retry⟩ (s.put i (.trying s.counters.lastId) s.counters)
  | number {s : Crowd n} {i : Fin n} {last id : Int64} : s.phases i = .replaced last →
    Stamp.next? o last (clock i) = some id →
    Step o clock s ⟨i, .number⟩ (s.put i (.numbered id) s.counters)
  | raise {s : Crowd n} {i : Fin n} {id : Int64} : s.phases i = .numbered id →
    Step o clock s ⟨i, .raise⟩
      (s.put i (.done id (max s.counters.lastTime (clock i)))
        ⟨s.counters.lastId, max s.counters.lastTime (clock i)⟩)

inductive Steps (o : Overflow) (clock : Fin n → Int64) : Crowd n → List (Move n) → Crowd n → Prop
  | nil {s : Crowd n} : Steps o clock s [] s
  | snoc {s t u : Crowd n} {moves : List (Move n)} {m : Move n} :
    Steps o clock s moves t → Step o clock t m u → Steps o clock s (moves ++ [m]) u

def stamp? (clock : Fin n → Int64) (s : Crowd n) (i : Fin n) : Option Stamp :=
  match s.phases i with
  | .done id time => some ⟨Stamp.idText id, Stamp.timeText (clock i).toInt time⟩
  | _ => none

end Crowd

end EventPost
