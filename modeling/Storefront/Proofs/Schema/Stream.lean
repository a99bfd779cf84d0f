import Storefront.Proofs.Wire.Written
import Storefront.Schema.Stream

/-! # Streams from end to end

A sender drains its source into chunks, and a receiver puts them together again.

* `Yields.eq_octets`   a source without false ends yields all its octets
* `send_drains`        what a stream that could be written consists of
* `receive_drained`    what arrives is what the source yielded
-/

namespace Storefront

/-- True for an arrival that looks like the end of input wherever it stands. -/
def Arrival.stalls : Arrival → Bool
  | .nothing | .octets _ (some 0) => true
  | _ => false

namespace Source

/-- The octets that a run of reads takes from a source until one of them finds it at its end.  Reads
may be of any size; those that are interrupted hand out nothing, and neither does one that finds the
end too early, after which a reader may well go on. -/
inductive Yields : Source → Bytes → Prop
  | finished {room : Nat} {s s' : Source} (hroom : 0 < room) (h : s.read room = (.ok [], s')) :
    Yields s []
  | octets {room : Nat} {s s' : Source} {bs more : Bytes} (h : s.read room = (.ok bs, s'))
    (hmore : Yields s' more) : Yields s (bs ++ more)
  | interrupted {room : Nat} {s s' : Source} {bs : Bytes}
    (h : s.read room = (.error .interrupted, s')) (hmore : Yields s' bs) : Yields s bs

/-- A source that is at its end only when nothing is left. -/
def Steady (s : Source) : Prop := ∀ a ∈ s, a.stalls = false

theorem octets_append (s t : Source) : octets (s ++ t) = s.octets ++ t.octets := by
  induction s with
  | nil => rfl
  | cons a s ih => cases a <;> simp [octets, ih]

/-- `read` neither loses nor makes up an octet. -/
theorem read_octets {room : Nat} {s s' : Source} {bs : Bytes} (h : s.read room = (.ok bs, s')) :
    bs ++ s'.octets = s.octets := by
  fun_induction read room s with
  | case1 => simp_all [octets]
  | case2 most rest ih => simpa [octets] using ih h
  | case3 c cs most rest n =>
    simp only [Prod.mk.injEq, Except.ok.injEq] at h
    obtain ⟨rfl, rfl⟩ := h
    simp only [resume, octets]
    -- What does not fit the read stays in front of the source, unless it is nothing.
    split
    · rename_i hd
      rw [List.isEmpty_iff, List.drop_eq_nil_iff] at hd
      rw [List.take_of_length_le hd]
    · simp only [octets]
      rw [← List.append_assoc, List.take_append_drop]
  | case4 => simp at h
  | case5 => simp_all [octets]

/-- `read` that fails takes no octets. -/
theorem read_octets_of_error {room : Nat} {s s' : Source} {f : IoFault}
    (h : s.read room = (.error f, s')) : s'.octets = s.octets := by
  fun_induction read room s with
  | case1 => simp at h
  | case2 most rest ih => simpa [octets] using ih h
  | case3 => simp at h
  | case4 => simp_all [octets]
  | case5 => simp at h

/-- `read` hands out no more than there is `room` for. -/
theorem read_length_le {room : Nat} {s s' : Source} {bs : Bytes}
    (h : s.read room = (.ok bs, s')) : bs.length ≤ room := by
  fun_induction read room s with
  | case1 => simp_all
  | case2 most rest ih => exact ih h
  | case3 c cs most rest n =>
    simp only [Prod.mk.injEq] at h
    have hn : n ≤ room := Nat.min_le_left _ _
    have hl := congrArg List.length (Except.ok.inj h.1)
    simp only [List.length_take] at hl
    omega
  | case4 => simp at h
  | case5 => simp_all

/-! ## Sources without false ends -/

/-- `resume` of an arrival that does not stall is `Steady`. -/
theorem Steady.resume {bs : Bytes} {most : Option Nat} {rest : Source} (hm : most ≠ some 0)
    (h : Steady rest) : Steady (resume bs most rest) := by
  unfold Source.resume
  split
  · exact h
  · intro a ha
    rcases List.mem_cons.1 ha with rfl | ha
    · cases most with
      | none => rfl
      | some n =>
        cases n with
        | zero => exact absurd rfl hm
        | succ n => rfl
    · exact h a ha

/-- `read` leaves a `Steady` source steady. -/
theorem Steady.read {room : Nat} {s s' : Source} {r : Except IoFault Bytes} (hs : s.Steady)
    (h : s.read room = (r, s')) : s'.Steady := by
  fun_induction Source.read room s with
  | case1 =>
    simp only [Prod.mk.injEq] at h
    exact h.2 ▸ hs
  | case2 most rest ih => exact ih (fun a ha => hs a (List.mem_cons_of_mem _ ha)) h
  | case3 c cs most rest n =>
    simp only [Prod.mk.injEq] at h
    -- An arrival that is held to no octets would have stalled.
    have hm : most ≠ some 0 := by
      rintro rfl
      exact absurd (hs _ List.mem_cons_self) (by simp [Arrival.stalls])
    exact h.2 ▸ Steady.resume hm (fun a ha => hs a (List.mem_cons_of_mem _ ha))
  | case4 f rest =>
    simp only [Prod.mk.injEq] at h
    exact h.2 ▸ fun a ha => hs a (List.mem_cons_of_mem _ ha)
  | case5 rest =>
    simp only [Prod.mk.injEq] at h
    exact h.2 ▸ fun a ha => hs a (List.mem_cons_of_mem _ ha)

/-- `read` of a `Steady` source hands out nothing only where nothing is left. -/
theorem Steady.octets_of_read_nil {room : Nat} {s s' : Source} (hs : s.Steady) (hroom : 0 < room)
    (h : s.read room = (.ok [], s')) : s.octets = [] := by
  fun_induction Source.read room s with
  | case1 => rfl
  | case2 most rest ih =>
    simpa [octets] using ih (fun a ha => hs a (List.mem_cons_of_mem _ ha)) h
  | case3 c cs most rest n =>
    simp only [Prod.mk.injEq, Except.ok.injEq, List.take_eq_nil_iff, reduceCtorEq, or_false] at h
    have hstalls := hs _ List.mem_cons_self
    cases most with
    -- A read that finds octets and has room hands out one at least, unless it is held to none.
    | none => exact absurd h.1 (by simp only [n, Option.getD_none]; omega)
    | some k =>
      cases k with
      | zero => simp [Arrival.stalls] at hstalls
      | succ k => exact absurd h.1 (by simp only [n, Option.getD_some]; omega)
  | case4 => simp at h
  | case5 => exact absurd (hs _ List.mem_cons_self) (by simp [Arrival.stalls])

/-- A `Steady` source `Yields` all its octets. -/
theorem Yields.eq_octets {s : Source} {bs : Bytes} (h : Yields s bs) (hs : s.Steady) :
    bs = s.octets := by
  -- Along the run of reads, each of which leaves a steady source.
  induction h with
  | finished hroom h => exact (hs.octets_of_read_nil hroom h).symm
  | octets h _ ih => rw [ih (hs.read h), read_octets h]
  | interrupted h _ ih => rw [ih (hs.read h), read_octets_of_error h]

/-! ## Draining a source -/

/-- What filling up to `room` octets hands out.  It stops short of `room` only at an end. -/
theorem fillFrom_yields {done : List Bytes} {room : Nat} {s s' : Source} {r : Bytes}
    (h : fillFrom done room s = (.ok r, s')) :
    ∃ got, r = done.reverse.flatten ++ got ∧ got.length ≤ room ∧
      (∀ more, Yields s' more → Yields s (got ++ more)) ∧ (got.length < room → Yields s got) := by
  fun_induction fillFrom done room s with
  | case1 done s =>
    simp only [Prod.mk.injEq, Except.ok.injEq] at h
    obtain ⟨rfl, rfl⟩ := h
    exact ⟨[], by simp, Nat.le_refl _, fun more hm => hm, by simp⟩
  | case2 done room s hr s₁ h₁ ih =>
    -- An interrupted read is made again and adds nothing.
    obtain ⟨got, hr, hl, hmore, hend⟩ := ih h
    exact ⟨got, hr, hl, fun more hm => .interrupted h₁ (hmore more hm),
      fun hlt => .interrupted h₁ (hend hlt)⟩
  | case3 => simp at h
  | case4 done room s hr s₁ h₁ =>
    simp only [Prod.mk.injEq, Except.ok.injEq] at h
    obtain ⟨rfl, rfl⟩ := h
    -- The source looks to be at its end, although there was room.
    exact ⟨[], by simp, Nat.zero_le _, fun more hm => .octets h₁ hm,
      fun _ => .finished (Nat.pos_of_ne_zero hr) h₁⟩
  | case5 done room s hr b bs s₁ h₁ ih =>
    -- What this read took comes in front of what the next ones take.
    obtain ⟨got, hr', hl, hmore, hend⟩ := ih h
    have hb := read_length_le h₁
    refine ⟨(b :: bs) ++ got, by simp [hr'], ?_, ?_, ?_⟩
    · rw [List.length_append]
      omega
    · intro more hm
      rw [List.append_assoc]
      exact .octets h₁ (hmore more hm)
    · intro hlt
      rw [List.length_append] at hlt
      exact .octets h₁ (hend (by omega))

/-- `piecesFrom` that succeeds: no piece is empty or too long, and together they are what the
source `Yields`. -/
theorem piecesFrom_ok {tag room sent : Nat} {max : Option Nat} {done : List Bytes} {s : Source}
    {ps : List Bytes} (hroom : 0 < room) (hsent : checkBound tag sent max = .ok ())
    (h : piecesFrom tag max room sent done s = (ps, .ok ())) :
    ∃ more, ps = done.reverse ++ more ∧ (∀ c ∈ more, c ≠ [] ∧ c.length ≤ room) ∧
      checkBound tag (sent + more.flatten.length) max = .ok () ∧ Yields s more.flatten := by
  fun_induction piecesFrom tag max room sent done s with
  | case1 => simp at h
  | case2 sent done s s₁ h₁ =>
    simp only [Prod.mk.injEq, and_true] at h
    -- Nothing could be filled in, so the source is drained.
    obtain ⟨got, hgot, -, -, hend⟩ := fillFrom_yields h₁
    obtain rfl : got = [] := by simpa using hgot.symm
    exact ⟨[], by simp [h], by simp, by simpa using hsent, hend hroom⟩
  | case3 => simp_all
  | case4 sent done s b bs s₁ h₁ sent' hb ih =>
    -- One piece has been filled, and draining goes on behind it.
    obtain ⟨got, hgot, hl, hmore, -⟩ := fillFrom_yields h₁
    obtain rfl : b :: bs = got := by simpa using hgot
    obtain ⟨more, rfl, hps, htotal, hyields⟩ := ih hb h
    refine ⟨(b :: bs) :: more, by simp, ?_, ?_, ?_⟩
    · intro c hc
      rcases List.mem_cons.1 hc with rfl | hc
      · exact ⟨List.cons_ne_nil _ _, hl⟩
      · exact hps c hc
    · rw [List.flatten_cons, List.length_append, ← Nat.add_assoc]
      exact htotal
    · rw [List.flatten_cons]
      exact hmore _ hyields

end Source

namespace StreamField

/-- `chunkRoom` fits 64 bits. -/
theorem chunkRoom_lt_limit (m : FieldMeta) : chunkRoom m < Varint.limit := by
  have hlast : Nat.min m.chunkSize (Varint.limit - 1) ≤ Varint.limit - 1 := Nat.min_le_right _ _
  have hpos : 1 < Varint.limit := by decide
  apply Nat.max_lt.2
  omega

theorem chunkRoom_le {m : FieldMeta} (h : 1 ≤ m.chunkSize) : chunkRoom m ≤ m.chunkSize :=
  Nat.max_le.2 ⟨h, Nat.min_le_left _ _⟩

/-- The chunks that a field was written as, together what its source yielded. -/
structure Drains (m : FieldMeta) (field : StreamField) (chunks : List Bytes) : Prop where
  bytes : (field.send m).bytes =
    Wire.streamStart field.declared ++ chunks.flatMap Wire.chunk ++ Wire.streamEnd
  yields : (field.source.getD []).Yields chunks.flatten
  chunk : ∀ c ∈ chunks, c ≠ [] ∧ c.length ≤ chunkRoom m
  bounded : checkBound m.tag chunks.flatten.length m.maxSize = .ok ()
  announced : ∀ n, field.declared = some n → n = chunks.flatten.length

/-- `send` that succeeds `Drains` the source: it writes a start, chunks and an end. -/
theorem send_drains {m : FieldMeta} {field : StreamField} (h : (field.send m).result = .ok ()) :
    ∃ chunks, Drains m field chunks := by
  -- Of the ways in which a write can end, one is not a failure.
  have hroom : 0 < chunkRoom m := Nat.lt_of_lt_of_le Nat.one_pos (Nat.le_max_left _ _)
  cases hd : field.declared.elim (.ok ()) (checkBound m.tag · m.maxSize) with
  | error e => simp [send, hd] at h
  | ok u =>
    cases hp : (field.source.getD []).pieces m.tag m.maxSize (chunkRoom m) with
    | mk chunks ending =>
      cases ending with
      | error e => simp [send, hd, hp] at h
      | ok u =>
        obtain ⟨more, hmore, hchunk, hbound, hyields⟩ :=
          Source.piecesFrom_ok hroom (checkBound_eq_ok.2 fun _ _ => Nat.zero_le _) hp
        rw [List.reverse_nil, List.nil_append] at hmore
        rw [Nat.zero_add] at hbound
        subst hmore
        refine ⟨chunks, ?_, hyields, hchunk, hbound, ?_⟩
        · simp only [send, hd, hp]
        · intro n hn
          by_cases heq : n = chunks.flatten.length
          · exact heq
          · -- A source that yields another number of octets than was announced is refused.
            rw [hn] at hd
            simp only [send, hn, hd, hp, heq, if_false, reduceCtorEq] at h

/-! ## Receiving -/

section

variable {m : FieldMeta}

/-- `collect` is done at the end mark. -/
theorem collect_of_none {received : Nat} {done : List Bytes} {c c' : Cursor}
    (h : c.chunk = .ok none c') : collect m received done c = (⟨done.reverse, received⟩, .ok c') := by
  rw [collect]
  split <;> simp_all

/-- A chunk within both bounds is taken, and `collect` goes on behind it. -/
theorem collect_of_some {received : Nat} {done : List Bytes} {c c' : Cursor} {bs : Bytes}
    (h : c.chunk = .ok (some bs) c')
    (hchunk : checkBound m.tag bs.length (some m.chunkSize) = .ok ())
    (hmax : checkBound m.tag (received + bs.length) m.maxSize = .ok ()) :
    collect m received done c = collect m (received + bs.length) (bs :: done) c' := by
  rw [collect]
  split <;> simp_all

/-- `collect` takes chunks within their bounds up to the end mark. -/
theorem collect_append {chunks : List Bytes} {received : Nat} {done : List Bytes}
    (hc : ∀ c ∈ chunks, c ≠ [] ∧ c.length < Varint.limit ∧ c.length ≤ m.chunkSize)
    (hmax : checkBound m.tag (received + chunks.flatten.length) m.maxSize = .ok ()) (p : Nat)
    (rest : Bytes) :
    collect m received done ⟨p, chunks.flatMap Wire.chunk ++ (Wire.streamEnd ++ rest)⟩ =
      (⟨done.reverse ++ chunks, received + chunks.flatten.length⟩,
        .ok ⟨p + (chunks.flatMap Wire.chunk ++ Wire.streamEnd).length, rest⟩) := by
  -- Along the chunks, which pile up in `done` while they are counted.
  induction chunks generalizing received done p with
  | nil =>
    rw [List.append_nil]
    exact collect_of_none (Cursor.chunk_streamEnd p rest)
  | cons c cs ih =>
    obtain ⟨hne, hlimit, hsize⟩ := hc c List.mem_cons_self
    rw [List.flatten_cons, List.length_append, ← Nat.add_assoc] at hmax ⊢
    -- A part of the stream keeps to the bound when the whole does.
    have hpart : checkBound m.tag (received + c.length) m.maxSize = .ok () := by
      rw [checkBound_eq_ok] at hmax ⊢
      intro max hm
      have := hmax max hm
      omega
    have hchunk : checkBound m.tag c.length (some m.chunkSize) = .ok () :=
      checkBound_eq_ok.2 fun _ hm => Option.some.inj hm ▸ hsize
    rw [List.flatMap_cons, List.append_assoc,
      collect_of_some (Cursor.chunk_append hne hlimit p _) hchunk hpart,
      ih (fun c' hc' => hc c' (List.mem_cons_of_mem _ hc')) hmax]
    simp only [List.reverse_cons, List.append_assoc, List.singleton_append, List.length_append,
      Nat.add_assoc]

end

/-- What arrives of a field that is sent: all that its source yielded, and its announced size unless
that is the number which stands for none. -/
structure Arrives (sent got : StreamField) : Prop where
  data : (sent.source.getD []).Yields got.data
  received : got.received = got.data.length
  complete : got.complete = true
  declared : got.declared = sent.declared.filter (· != Wire.undeclaredSize)

/-- `receive` of chunks that keep to its bounds and have as many octets as were announced: whatever
the field held before is gone but for its source. -/
theorem receive_chunks {m : FieldMeta} {chunks : List Bytes} {declared : Option Nat}
    (hd : ∀ n, declared = some n → n < Varint.limit ∧ n = chunks.flatten.length)
    (hchunk : ∀ c ∈ chunks, c ≠ [] ∧ c.length < Varint.limit ∧ c.length ≤ m.chunkSize)
    (hmax : checkBound m.tag chunks.flatten.length m.maxSize = .ok ()) (old : StreamField) (p : Nat)
    (rest : Bytes) :
    old.receive m
        ⟨p, Wire.streamStart declared ++ chunks.flatMap Wire.chunk ++ Wire.streamEnd ++ rest⟩ =
      ⟨⟨old.source, declared.filter (· != Wire.undeclaredSize), chunks.flatten,
          chunks.flatten.length, chunks.length, true⟩,
        ⟨p + (Wire.streamStart declared ++ chunks.flatMap Wire.chunk ++ Wire.streamEnd).length, rest⟩,
        .ok (), Progress.ofStream chunks⟩ := by
  rw [← Nat.zero_add chunks.flatten.length] at hmax ⊢
  -- The size that is read back, if any, is the number of octets that follow.
  have hannounced : ∀ n, declared.filter (· != Wire.undeclaredSize) = some n →
      n = chunks.flatten.length := fun n hn => (hd n (Option.filter_eq_some_iff.1 hn).1).2
  have hbound : (declared.filter (· != Wire.undeclaredSize)).elim (.ok ())
      (checkBound m.tag · m.maxSize) = .ok () := by
    cases hf : declared.filter (· != Wire.undeclaredSize) with
    | none => rfl
    | some n =>
      rw [Nat.zero_add] at hmax
      exact hannounced n hf ▸ hmax
  have hverdict : verdict m.tag (declared.filter (· != Wire.undeclaredSize))
      (0 + chunks.flatten.length) = .ok () := by
    cases hf : declared.filter (· != Wire.undeclaredSize) with
    | none => rfl
    | some n => simp [verdict, hannounced n hf]
  have hstart := Cursor.streamStart_append (fun n hn => (hd n hn).1) p
    (chunks.flatMap Wire.chunk ++ (Wire.streamEnd ++ rest))
  simp only [List.append_assoc, receive, hstart, hbound, collect_append hchunk hmax, hverdict,
    List.reverse_nil, List.nil_append]
  simp [Except.isOk, Except.toBool, Nat.add_assoc]

/-- `receive` takes a stream as `send` has written it, and nothing behind it is touched. -/
theorem receive_drained {m : FieldMeta} {field : StreamField} {chunks : List Bytes}
    (h : Drains m field chunks) (hsize : 1 ≤ m.chunkSize)
    (hd : ∀ n, field.declared = some n → n < Varint.limit) (old : StreamField) :
    ∃ got reports, field.Arrives got ∧ ∀ p rest,
      old.receive m ⟨p, (field.send m).bytes ++ rest⟩ =
        ⟨got, ⟨p + (field.send m).bytes.length, rest⟩, .ok (), reports⟩ := by
  have hlimit := chunkRoom_lt_limit m
  have hroom := chunkRoom_le hsize
  -- The sender has kept to all bounds that the receiver looks at.
  have hchunk : ∀ c ∈ chunks, c ≠ [] ∧ c.length < Varint.limit ∧ c.length ≤ m.chunkSize := by
    intro c hc
    obtain ⟨hne, hle⟩ := h.chunk c hc
    exact ⟨hne, by omega, by omega⟩
  have hannounced : ∀ n, field.declared = some n → n < Varint.limit ∧ n = chunks.flatten.length :=
    fun n hn => ⟨hd n hn, h.announced n hn⟩
  exact ⟨_, _, ⟨h.yields, rfl, rfl, rfl⟩, fun p rest =>
    h.bytes ▸ receive_chunks hannounced hchunk h.bounded old p rest⟩

end StreamField

end Storefront
