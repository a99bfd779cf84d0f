import Storefront.Wire.Error

/-! # Byte sinks

A sink is the list of what its writes and flushes will meet, together with the octets written so
far.  A sink that has nothing more to tell takes everything.

* `writeAll_written`  what a complete write adds to the octets written
-/

namespace Storefront

/-- What one write meets. -/
inductive Acceptance where
  /-- At most this many octets are taken. -/
  | most (n : Nat)
  /-- The write fails. -/
  | fault (fault : IoFault)
  deriving DecidableEq, Repr

/-- A sink of octets, described by what its writes and flushes will meet. -/
structure Sink where
  writes : List Acceptance
  flushes : List IoFault
  /-- The octets taken so far. -/
  written : Bytes
  deriving DecidableEq, Repr

namespace Sink

/-- A sink that takes everything. -/
def unlimited : Sink := ⟨[], [], []⟩

/-- True for the failures after which the same call is made again. -/
def retries : IoFault → Bool
  | .interrupted | .wouldBlock => true
  | _ => false

/-- Offers octets to the sink until it has taken all of them.  Answers how that ended, the writes
that were not needed, and the octets taken. -/
def offer : List Acceptance → Bytes → Except WireError Unit × List Acceptance × Bytes
  | writes, [] => (.ok (), writes, [])
  | [], bs => (.ok (), [], bs)
  | .most n :: writes, b :: bs =>
    match n with
    -- A sink that takes nothing of something will never take anything.
    | 0 => (.error .connectionClosed, writes, [])
    | n + 1 =>
      let (result, left, taken) := offer writes (bs.drop n)
      (result, left, (b :: bs).take (n + 1) ++ taken)
  | .fault f :: writes, b :: bs =>
    if retries f then offer writes (b :: bs) else (.error (.io f), writes, [])

/-- Writes all of `bs`.  A sink that takes nothing is closed. -/
def writeAll (sink : Sink) (bs : Bytes) : Except WireError Unit × Sink :=
  let (result, writes, taken) := offer sink.writes bs
  (result, { sink with writes, written := sink.written ++ taken })

/-- Flushes that are still to be met after one that is made until it counts. -/
def settle : List IoFault → Except WireError Unit × List IoFault
  | [] => (.ok (), [])
  | f :: flushes => if retries f then settle flushes else (.error (.io f), flushes)

/-- Flushes the sink. -/
def flush (sink : Sink) : Except WireError Unit × Sink :=
  let (result, flushes) := settle sink.flushes
  (result, { sink with flushes })

theorem offer_ok {writes left : List Acceptance} {bs taken : Bytes}
    (h : offer writes bs = (.ok (), left, taken)) : taken = bs := by
  fun_induction offer writes bs generalizing taken with
  | case1 => simp_all
  | case2 => simp_all
  | case3 => simp at h
  | case4 b bs writes n result left' taken' hr ih =>
    simp only [Prod.mk.injEq] at h
    obtain ⟨rfl, rfl, rfl⟩ := h
    rw [ih hr]
    simp
  | case5 f writes b bs hf ih => exact ih h
  | case6 => simp at h

theorem writeAll_written {sink sink' : Sink} {bs : Bytes}
    (h : sink.writeAll bs = (.ok (), sink')) : sink'.written = sink.written ++ bs := by
  unfold writeAll at h
  simp only [Prod.mk.injEq] at h
  obtain ⟨hr, rfl⟩ := h
  simp only [List.append_cancel_left_eq]
  have h : offer sink.writes bs = (.ok (), (offer sink.writes bs).2) := by rw [← hr]
  exact offer_ok h

@[simp] theorem flush_written (sink : Sink) : (sink.flush).2.written = sink.written := rfl

end Sink

end Storefront
