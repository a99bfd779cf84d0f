import Storefront.Proofs.Frame.Decode

/-! # Frames of a stream that arrives as a whole

Where reads are cut short, and even interrupted, but neither fail for good nor come to a false end,
a reader finds each frame that its limit allows, whatever stands behind it.

* `Holds.readFrame_first`   what is read is up to the octets
* `Holds.readFrame`         a frame is read as it was written
* `Holds.nextFrame`         behind some keepalives, too
* `Holds.closed`            keepalives alone lead up to the end
-/

namespace Storefront

namespace Source

/-- A source that hands out all its octets.  Its reads may be interrupted. -/
structure Intact (s : Source) : Prop where
  steady : s.Steady
  faults : ∀ fault, .fault fault ∈ s → fault = .interrupted

/-- `read` of an `Intact` source fails for `interrupted` at most, and leaves an intact one. -/
theorem Intact.read {room : Nat} {s s' : Source} {result : Except IoFault Bytes} (hs : s.Intact)
    (h : s.read room = (result, s')) :
    s'.Intact ∧ ∀ fault, result = .error fault → fault = .interrupted := by
  have hrest : ∀ {a : Arrival} {rest : Source}, Intact (a :: rest) → Intact rest := fun hs =>
    ⟨fun a ha => hs.steady a (List.mem_cons_of_mem _ ha),
      fun fault hfault => hs.faults fault (List.mem_cons_of_mem _ hfault)⟩
  have hsteady := hs.steady.read h
  fun_induction Source.read room s with
  | case1 =>
    simp only [Prod.mk.injEq] at h
    exact ⟨h.2 ▸ hs, by simp [← h.1]⟩
  | case2 most rest ih => exact ih (hrest hs) h
  | case3 c cs most rest n =>
    simp only [Prod.mk.injEq] at h
    refine ⟨⟨hsteady, fun fault hfault => ?_⟩, by simp [← h.1]⟩
    -- What is left of an arrival is no fault.
    rw [← h.2, Source.resume] at hfault
    split at hfault
    · exact (hrest hs).faults fault hfault
    · rcases List.mem_cons.1 hfault with hfault | hfault
      · cases hfault
      · exact (hrest hs).faults fault hfault
  | case4 f rest =>
    simp only [Prod.mk.injEq] at h
    refine ⟨h.2 ▸ hrest hs, fun fault hfault => ?_⟩
    rw [← h.1, Except.error.injEq] at hfault
    exact hs.faults fault (hfault ▸ List.mem_cons_self)
  | case5 rest =>
    simp only [Prod.mk.injEq] at h
    exact ⟨h.2 ▸ hrest hs, by simp [← h.1]⟩

/-- `ofBytes` is `Intact`. -/
theorem intact_ofBytes (bs : Bytes) : (ofBytes bs).Intact := by
  constructor
  case steady =>
    intro a ha
    rw [List.mem_singleton.1 ha]
    rfl
  case faults =>
    intro fault hfault
    cases List.mem_singleton.1 hfault

end Source

/-- What octets that have all arrived come to: a frame, with what stands behind it, or the reason
why there is none.  Octets that may still become a frame are at their end. -/
def Frame.first (maxPayload : Nat) (bs : Bytes) : Except WireError Frame × Bytes :=
  match decode maxPayload bs with
  | .ok (some (frame, rest)) => (.ok frame, rest)
  | .ok none => (.error .connectionClosed, bs)
  | .error e => (.error e, bs)

namespace FrameReader

/-- `nextFrame` passes over a keepalive that `readFrame` answers, and hands out any other frame. -/
theorem nextFrame_of_ok {reader reader' : FrameReader} {frame : Frame} (patient : IoFault → Bool)
    (h : reader.readFrame = (.ok frame, reader')) :
    reader.nextFrame patient =
      if frame.isKeepalive then reader'.nextFrame patient else (.ok frame, reader') := by
  rw [nextFrame]
  split <;> simp_all

/-- `nextFrame` answers `connectionClosed` when `readFrame` does. -/
theorem nextFrame_of_closed {reader reader' : FrameReader} (patient : IoFault → Bool)
    (h : reader.readFrame = (.error .connectionClosed, reader')) :
    reader.nextFrame patient = (.error .connectionClosed, reader') := by
  rw [nextFrame]
  split <;> simp_all

/-- What a reader has gathered, and what its source will hand out, are these octets. -/
structure Holds (reader : FrameReader) (bs : Bytes) : Prop where
  octets : reader.buffer ++ reader.source.octets = bs
  intact : reader.source.Intact

/-- A new reader `Holds` all octets of its source. -/
theorem holds_ofBytes (bs : Bytes) (maxPayload : Nat) :
    (ofSource (.ofBytes bs) maxPayload).Holds bs :=
  ⟨List.append_nil bs, Source.intact_ofBytes bs⟩

namespace Holds

variable {reader reader' : FrameReader} {bs rest : Bytes} {frame : Frame} {frames : List Frame}

/-- A successful read moves octets from the source to the buffer, and the reader `Holds`
the same. -/
theorem gather {room : Nat} {news : Bytes} {source : Source} (h : reader.Holds bs)
    (hr : reader.source.read room = (.ok news, source)) :
    Holds { reader with source, buffer := reader.buffer ++ news } bs := by
  refine ⟨?_, (h.intact.read hr).1⟩
  rw [← h.octets, ← Source.read_octets hr, List.append_assoc]

/-- A read that is interrupted takes nothing of what the reader `Holds`. -/
theorem afterFault {room : Nat} {fault : IoFault} {source : Source} (h : reader.Holds bs)
    (hr : reader.source.read room = (.error fault, source)) : Holds { reader with source } bs := by
  refine ⟨?_, (h.intact.read hr).1⟩
  rw [← h.octets, ← Source.read_octets_of_error hr]

/-- `readFrame` is `Frame.first` of what the reader `Holds`, however that is cut. -/
theorem readFrame_first (h : reader.Holds bs) :
    ∃ reader', reader.readFrame = ((Frame.first reader.maxPayload bs).1, reader') ∧
      reader'.Holds (Frame.first reader.maxPayload bs).2 ∧
      reader'.maxPayload = reader.maxPayload := by
  fun_induction FrameReader.readFrame reader with
  | case1 reader e hdecode =>
    -- What the gathered octets are settled by does not change with those still to come.
    have hwhole := Frame.decode_append_of_error hdecode reader.source.octets
    rw [h.octets] at hwhole
    simp only [Frame.first, hwhole]
    exact ⟨reader, rfl, h, rfl⟩
  | case2 reader frame gathered hdecode =>
    have hwhole := Frame.decode_append_of_some hdecode reader.source.octets
    rw [h.octets] at hwhole
    simp only [Frame.first, hwhole]
    exact ⟨_, rfl, ⟨rfl, h.intact⟩, rfl⟩
  | case3 reader _ source hr ih => exact ih (h.afterFault hr)
  | case4 reader _ fault source hfault hr =>
    exact absurd ((h.intact.read hr).2 fault rfl) hfault
  | case5 reader hdecode source hr =>
    -- An empty read of an intact source is its end, so everything has been gathered.
    have hempty := h.intact.steady.octets_of_read_nil (by decide) hr
    have hwhole := h.octets
    rw [hempty, List.append_nil] at hwhole
    have hsame := h.gather hr
    rw [List.append_nil] at hsame
    rw [hwhole] at hdecode
    simp only [Frame.first, hdecode]
    exact ⟨_, rfl, hsame, rfl⟩
  | case6 reader _ b bs source hr ih => exact ih (h.gather hr)

/-- `readFrame` answers a frame that is in front, and then the reader `Holds` what stands
behind it. -/
theorem readFrame (h : reader.Holds (frame.octets ++ rest)) (hfits : frame.Fits reader.maxPayload) :
    ∃ reader', reader.readFrame = (.ok frame, reader') ∧ reader'.Holds rest ∧
      reader'.maxPayload = reader.maxPayload := by
  have hfirst := h.readFrame_first
  simp only [Frame.first, Frame.decode_octets hfits rest] at hfirst
  exact hfirst

theorem readFrame_nil (h : reader.Holds []) :
    ∃ reader', reader.readFrame = (.error .connectionClosed, reader') ∧ reader'.Holds [] := by
  obtain ⟨reader', hread, hholds, -⟩ := h.readFrame_first
  exact ⟨reader', hread, hholds⟩

/-- `nextFrame` answers the first frame behind keepalives. -/
theorem nextFrame (patient : IoFault → Bool)
    (h : reader.Holds (frames.flatMap Frame.octets ++ (frame.octets ++ rest)))
    (hframes : ∀ other ∈ frames, other.isKeepalive ∧ other.Fits reader.maxPayload)
    (hframe : frame.isKeepalive = false) (hfits : frame.Fits reader.maxPayload) :
    ∃ reader', reader.nextFrame patient = (.ok frame, reader') ∧ reader'.Holds rest ∧
      reader'.maxPayload = reader.maxPayload := by
  -- The keepalives are passed over one by one.
  induction frames generalizing reader with
  | nil =>
    obtain ⟨reader', hread, hholds, hmax⟩ := readFrame h hfits
    refine ⟨reader', ?_, hholds, hmax⟩
    rw [nextFrame_of_ok patient hread, if_neg (by simp [hframe])]
  | cons other frames ih =>
    obtain ⟨⟨hkeepalive, hother⟩, hframes⟩ := List.forall_mem_cons.1 hframes
    rw [List.flatMap_cons, List.append_assoc] at h
    obtain ⟨reader₁, hread, hholds, hmax⟩ := readFrame h hother
    rw [← hmax] at hframes hfits
    obtain ⟨reader', hnext, hrest, hmax'⟩ := ih hholds hframes hfits
    refine ⟨reader', ?_, hrest, hmax'.trans hmax⟩
    rw [nextFrame_of_ok patient hread, if_pos hkeepalive, hnext]

/-- `nextFrame` answers a single frame that is no keepalive. -/
theorem nextFrame_alone (patient : IoFault → Bool) (h : reader.Holds frame.octets)
    (hframe : frame.isKeepalive = false) (hfits : frame.Fits reader.maxPayload) :
    ∃ reader', reader.nextFrame patient = (.ok frame, reader') := by
  have hone : reader.Holds ([].flatMap Frame.octets ++ (frame.octets ++ [])) := by
    rwa [List.flatMap_nil, List.nil_append, List.append_nil]
  obtain ⟨reader', hread, -⟩ := hone.nextFrame patient (by simp) hframe hfits
  exact ⟨reader', hread⟩

/-- `nextFrame` answers `connectionClosed` behind keepalives alone. -/
theorem closed (patient : IoFault → Bool) (h : reader.Holds (frames.flatMap Frame.octets))
    (hframes : ∀ other ∈ frames, other.isKeepalive ∧ other.Fits reader.maxPayload) :
    ∃ reader', reader.nextFrame patient = (.error .connectionClosed, reader') ∧
      reader'.Holds [] := by
  induction frames generalizing reader with
  | nil =>
    obtain ⟨reader', hread, hholds⟩ := readFrame_nil h
    exact ⟨reader', nextFrame_of_closed patient hread, hholds⟩
  | cons other frames ih =>
    obtain ⟨⟨hkeepalive, hother⟩, hframes⟩ := List.forall_mem_cons.1 hframes
    rw [List.flatMap_cons] at h
    obtain ⟨reader₁, hread, hholds, hmax⟩ := readFrame h hother
    rw [← hmax] at hframes
    obtain ⟨reader', hnext, hrest⟩ := ih hholds hframes
    refine ⟨reader', ?_, hrest⟩
    rw [nextFrame_of_ok patient hread, if_pos hkeepalive, hnext]

end Holds

end FrameReader

end Storefront
