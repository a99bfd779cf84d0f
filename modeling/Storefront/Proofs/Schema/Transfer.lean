import Storefront.Proofs.Schema.Stream

/-! # Transfers

What a stream carries does not depend on how its source is read.  A source may hand out its octets
in pieces of any size, and a read may be interrupted at any time; as long as no read comes up empty
too early, the chunks on the wire are those of `Bytes.cut`.

* `Bytes.cut`            octets in pieces of one length, but for the last
* `Source.Delivers`      a source that hands out all its octets
* `Delivers.pieces`      the pieces that such a source is cut into
* `stream_transferred`   what is written, what is received, and what both sides report
-/

namespace Storefront

/-! ## Cutting octets -/

namespace Bytes

/-- The octets in pieces of length `n`, the last of which may be shorter. -/
def cut (n : Nat) (bs : Bytes) : List Bytes :=
  (List.range ((bs.length + n - 1) / n)).map fun i => (bs.drop (i * n)).take n

variable {n : Nat} {bs : Bytes}

/-- `cut` makes no pieces of no octets. -/
theorem cut_nil (h : 0 < n) : cut n [] = [] := by
  have hcount : (0 + n - 1) / n = 0 := Nat.div_eq_of_lt (by omega)
  show (List.range ((0 + n - 1) / n)).map _ = []
  rw [hcount]
  rfl

/-- How many pieces `cut` makes, with the first one apart. -/
theorem count_eq_succ {l : Nat} (h : 0 < n) (hl : 0 < l) :
    (l + n - 1) / n = (l - n + n - 1) / n + 1 := by
  have hfirst : l + n - 1 = l - 1 + n := by omega
  rw [hfirst, Nat.add_div_right _ h]
  by_cases hle : n ≤ l
  · -- Taking off a full piece takes one off the count.
    have hrest : l - n + n - 1 = l - 1 := by omega
    rw [hrest]
  · -- The first piece is the only one.
    rw [Nat.div_eq_of_lt (show l - 1 < n by omega),
      Nat.div_eq_of_lt (show l - n + n - 1 < n by omega)]

/-- `cut` puts the first piece in front of the pieces of what is left. -/
theorem cut_of_ne_nil (h : 0 < n) (hbs : bs ≠ []) :
    cut n bs = bs.take n :: cut n (bs.drop n) := by
  have hl : 0 < bs.length := List.length_pos_iff.2 hbs
  unfold cut
  rw [List.length_drop, count_eq_succ h hl, List.range_succ_eq_map, List.map_cons, List.map_map,
    Nat.zero_mul, List.drop_zero]
  congr 1
  apply List.map_congr_left
  intro i _
  show (bs.drop ((i + 1) * n)).take n = ((bs.drop n).drop (i * n)).take n
  rw [List.drop_drop, Nat.succ_mul, Nat.add_comm]

/-- `take` of octets that are there is not empty. -/
theorem take_ne_nil (h : 0 < n) (hbs : bs ≠ []) : bs.take n ≠ [] := by
  intro hnil
  rcases List.take_eq_nil_iff.1 hnil with hn | hnil
  · omega
  · exact hbs hnil

theorem length_cut : (cut n bs).length = (bs.length + n - 1) / n := by
  simp [cut]

/-- Induction along `cut`: it takes one piece after the other off the front. -/
theorem cut_induction {motive : Bytes → Prop} (h : 0 < n) (nil : motive [])
    (cons : ∀ bs : Bytes, bs ≠ [] → motive (bs.drop n) → motive bs) (bs : Bytes) : motive bs := by
  induction hl : bs.length using Nat.strongRecOn generalizing bs with
  | _ l ih =>
    by_cases hbs : bs = []
    · exact hbs ▸ nil
    · have hpos : 0 < bs.length := List.length_pos_iff.2 hbs
      apply cons bs hbs
      exact ih (bs.drop n).length (by rw [List.length_drop]; omega) _ rfl

/-- `flatten` of what `cut` makes are the octets. -/
theorem flatten_cut (h : 0 < n) (bs : Bytes) : (cut n bs).flatten = bs := by
  induction bs using cut_induction h with
  | nil => rw [cut_nil h, List.flatten_nil]
  | cons bs hbs ih => rw [cut_of_ne_nil h hbs, List.flatten_cons, ih, List.take_append_drop]

/-- `cut` makes no piece that is empty or longer than it may be. -/
theorem mem_cut (h : 0 < n) (bs : Bytes) : ∀ c ∈ cut n bs, c ≠ [] ∧ c.length ≤ n := by
  induction bs using cut_induction h with
  | nil => simp [cut_nil h]
  | cons bs hbs ih =>
    rw [cut_of_ne_nil h hbs, List.forall_mem_cons]
    -- The first piece is not empty, and the others are pieces of what is left.
    refine ⟨⟨?_, List.length_take_le _ _⟩, ih⟩
    exact take_ne_nil h hbs

/-- `cut` makes all pieces but the last as long as they may be. -/
theorem mem_dropLast_cut (h : 0 < n) (bs : Bytes) : ∀ c ∈ (cut n bs).dropLast, c.length = n := by
  induction bs using cut_induction h with
  | nil => simp [cut_nil h]
  | cons bs hbs ih =>
    rw [cut_of_ne_nil h hbs]
    by_cases hrest : bs.drop n = []
    · rw [hrest, cut_nil h]
      simp
    · -- There is a second piece, so the first one takes all it can.
      have hmore : cut n (bs.drop n) ≠ [] := by
        rw [cut_of_ne_nil h hrest]
        exact List.cons_ne_nil _ _
      rw [List.dropLast_cons_of_ne_nil hmore, List.forall_mem_cons]
      constructor
      · rw [List.drop_eq_nil_iff] at hrest
        rw [List.length_take]
        omega
      · exact ih

end Bytes

/-! ## Sources that deliver -/

namespace Source

/-- A source that hands out these octets: in pieces of any size, with reads that are interrupted
anywhere among them, and without a read that comes up empty before the end. -/
inductive Delivers : Source → Bytes → Prop
  | ended : Delivers [] []
  | octets {bs more : Bytes} {most : Option Nat} {rest : Source} (hmost : most ≠ some 0)
    (h : Delivers rest more) : Delivers (.octets bs most :: rest) (bs ++ more)
  | interrupted {bs : Bytes} {rest : Source} (h : Delivers rest bs) :
    Delivers (.fault .interrupted :: rest) bs
  | nothing {rest : Source} (h : Delivers rest []) : Delivers (.nothing :: rest) []

namespace Delivers

variable {room : Nat} {s s' : Source} {bs more : Bytes}

/-- `resume` puts what is left of an arrival in front of what the source `Delivers`. -/
theorem resume {most : Option Nat} (hmost : most ≠ some 0) (h : Delivers s more) :
    Delivers (resume bs most s) (bs ++ more) := by
  unfold Source.resume
  cases bs with
  | nil => exact h
  | cons b bs => exact .octets hmost h

/-- `read` of a source that `Delivers` fails only by being interrupted, and takes nothing then. -/
theorem of_error {f : IoFault} (h : s.Delivers bs) (hr : s.read room = (.error f, s')) :
    f = .interrupted ∧ s'.Delivers bs := by
  induction h with
  | ended => simp [read] at hr
  | @octets c more most rest hmost h ih =>
    cases c with
    | nil => exact ih hr
    | cons b c => simp [read] at hr
  | interrupted h =>
    simp only [read, Prod.mk.injEq, Except.error.injEq] at hr
    exact ⟨hr.1.symm, hr.2 ▸ h⟩
  | nothing => simp [read] at hr

/-- `read` of a source that `Delivers` takes octets off the front, and comes back with none at the
end only. -/
theorem of_ok {c : Bytes} (hroom : 0 < room) (h : s.Delivers bs)
    (hr : s.read room = (.ok c, s')) :
    ∃ more, bs = c ++ more ∧ s'.Delivers more ∧ (c = [] → bs = []) := by
  induction h with
  | ended =>
    simp only [read, Prod.mk.injEq, Except.ok.injEq] at hr
    obtain ⟨rfl, rfl⟩ := hr
    exact ⟨[], rfl, .ended, fun _ => rfl⟩
  | @octets a more most rest hmost h ih =>
    cases a with
    | nil => exact ih hr
    | cons b a =>
      simp only [read, Prod.mk.injEq, Except.ok.injEq] at hr
      obtain ⟨rfl, rfl⟩ := hr
      refine ⟨_, ?_, resume hmost h, ?_⟩
      · rw [← List.append_assoc, List.take_append_drop]
      · -- There is room for an octet, and the arrival hands out one at least.
        intro hnil
        rw [List.take_eq_nil_iff] at hnil
        exfalso
        cases most with
        | none => simp at hnil; omega
        | some k =>
          have hk : k ≠ 0 := fun h0 => hmost (congrArg some h0)
          simp only [Option.getD_some, reduceCtorEq, or_false] at hnil
          omega
  | interrupted => simp [read] at hr
  | nothing h =>
    simp only [read, Prod.mk.injEq, Except.ok.injEq] at hr
    obtain ⟨rfl, rfl⟩ := hr
    exact ⟨[], rfl, h, fun _ => rfl⟩

/-- `fillFrom` takes as many octets as there is room for, however many reads that needs. -/
theorem fillFrom (done : List Bytes) (room : Nat) (h : s.Delivers bs) :
    ∃ s', s.fillFrom done room = (.ok (done.reverse.flatten ++ bs.take room), s') ∧
      s'.Delivers (bs.drop room) := by
  -- Along the reads; what they took piles up in `done`, and the room shrinks with it.
  fun_induction Source.fillFrom done room s generalizing bs with
  | case1 done s =>
    exact ⟨s, by rw [List.take_zero, List.append_nil], by rwa [List.drop_zero]⟩
  | case2 done room s hr s₁ h₁ ih =>
    obtain ⟨-, h'⟩ := h.of_error h₁
    exact ih h'
  | case3 done room s hr f s₁ hf h₁ =>
    obtain ⟨hf', -⟩ := h.of_error h₁
    exact absurd hf' hf
  | case4 done room s hr s₁ h₁ =>
    -- The read has met the end, so there is nothing to take.
    obtain ⟨more, hmore, h', hnil⟩ := h.of_ok (Nat.pos_of_ne_zero hr) h₁
    obtain rfl := hnil rfl
    obtain rfl : more = [] := hmore.symm
    exact ⟨s₁, by rw [List.take_nil, List.append_nil], by rwa [List.drop_nil]⟩
  | case5 done room s hr b c s₁ h₁ ih =>
    obtain ⟨more, rfl, h', -⟩ := h.of_ok (Nat.pos_of_ne_zero hr) h₁
    have hl := read_length_le h₁
    obtain ⟨s₂, hfill, hleft⟩ := ih h'
    refine ⟨s₂, ?_, ?_⟩
    · rw [hfill, List.take_append, List.take_of_length_le hl, List.reverse_cons, List.flatten_append,
        List.flatten_cons, List.flatten_nil, List.append_nil, List.append_assoc]
    · rw [List.drop_append, List.drop_of_length_le hl, List.nil_append]
      exact hleft

/-- `Source.fill` takes as many octets as there is room for. -/
theorem fill (room : Nat) (h : s.Delivers bs) :
    ∃ s', s.fill room = (.ok (bs.take room), s') ∧ s'.Delivers (bs.drop room) :=
  fillFrom [] room h

/-- `piecesFrom` of a source that `Delivers` makes the pieces that `cut` makes of its octets. -/
theorem piecesFrom {tag sent : Nat} {max : Option Nat} (done : List Bytes) (hroom : 0 < room)
    (hmax : ∀ n, max = some n → sent + bs.length ≤ n) (h : s.Delivers bs) :
    s.piecesFrom tag max room sent done = (done.reverse ++ bs.cut room, .ok ()) := by
  induction bs using Bytes.cut_induction hroom generalizing s sent done with
  | nil =>
    obtain ⟨s', hfill, -⟩ := h.fill room
    rw [List.take_nil] at hfill
    rw [Source.piecesFrom, Bytes.cut_nil hroom, List.append_nil]
    split <;> simp_all
  | cons bs hbs ih =>
    obtain ⟨s', hfill, hleft⟩ := h.fill room
    have hsum : (bs.take room).length + (bs.drop room).length = bs.length := by
      rw [← List.length_append, List.take_append_drop]
    -- The total keeps to the bound after this piece, as it does after all of them.
    have hbound : checkBound tag (sent + (bs.take room).length) max = .ok () := by
      apply checkBound_eq_ok.2
      intro n hn
      have := hmax n hn
      omega
    have hmore : s'.piecesFrom tag max room (sent + (bs.take room).length) (bs.take room :: done) =
        ((bs.take room :: done).reverse ++ Bytes.cut room (bs.drop room), .ok ()) := by
      apply ih _ _ hleft
      intro n hn
      have := hmax n hn
      omega
    have hpiece := Bytes.take_ne_nil hroom hbs
    rw [Bytes.cut_of_ne_nil hroom hbs, Source.piecesFrom]
    split <;> simp_all

/-- And `Source.pieces` cuts a source that delivers like its octets. -/
theorem pieces {tag : Nat} {max : Option Nat} (hroom : 0 < room)
    (hmax : ∀ n, max = some n → bs.length ≤ n) (h : s.Delivers bs) :
    s.pieces tag max room = (bs.cut room, .ok ()) := by
  apply h.piecesFrom [] hroom
  intro n hn
  rw [Nat.zero_add]
  exact hmax n hn

end Delivers

end Source

/-! ## Both sides of a transfer -/

/-- Octets as a stream: the size that is announced, the octets in chunks, and the end. -/
def Wire.streamed (declared : Option Nat) (n : Nat) (bs : Bytes) : Bytes :=
  streamStart declared ++ (bs.cut n).flatMap chunk ++ streamEnd

namespace Progress

/-- The reports on octets that are moved in chunks: one on each, counted from zero, and a last one
that bears their number. -/
def ofCut (n : Nat) (bs : Bytes) : List Progress :=
  (bs.cut n).mapIdx (fun i c => ⟨c.length, false, i⟩) ++ [⟨0, true, (bs.length + n - 1) / n⟩]

/-- `ofChunks` reports on each chunk, counted on from `index`. -/
theorem ofChunks_eq_mapIdx (chunks : List Bytes) (index : Nat) :
    ofChunks index chunks = chunks.mapIdx fun i c => ⟨c.length, false, i + index⟩ := by
  induction chunks generalizing index with
  | nil => rfl
  | cons c cs ih =>
    rw [ofChunks, ih, List.mapIdx_cons, Nat.zero_add]
    simp only [Nat.add_assoc, Nat.add_comm 1]

/-- `ofStream` reports on the pieces of octets as `ofCut` does. -/
theorem ofStream_cut (n : Nat) (bs : Bytes) : ofStream (bs.cut n) = ofCut n bs := by
  rw [ofStream, ofCut, ofChunks_eq_mapIdx, Bytes.length_cut]
  rfl

end Progress

namespace StreamField

variable {m : FieldMeta} {field : StreamField} {source : Source} {bs : Bytes}

/-- `chunkRoom` is `chunkSize`, between 1 and 64 bits. -/
theorem chunkRoom_eq (hchunk : 1 ≤ m.chunkSize) (hlimit : m.chunkSize < Varint.limit) :
    chunkRoom m = m.chunkSize := by
  have hmin : Nat.min m.chunkSize (Varint.limit - 1) = m.chunkSize :=
    Nat.min_eq_left (by omega)
  rw [chunkRoom, hmin]
  exact Nat.max_eq_right hchunk

/-- `send` of a source that `Delivers`, with the right size announced or none. -/
theorem send_of_delivers (hsource : field.source = some source) (hdelivers : source.Delivers bs)
    (hchunk : 1 ≤ m.chunkSize) (hlimit : m.chunkSize < Varint.limit)
    (hmax : ∀ max, m.maxSize = some max → bs.length ≤ max)
    (hdeclared : ∀ n, field.declared = some n → n = bs.length) :
    field.send m = ⟨Wire.streamed field.declared m.chunkSize bs, { field with source := none },
      .ok (), Progress.ofCut m.chunkSize bs⟩ := by
  have hbound : field.declared.elim (.ok ()) (checkBound m.tag · m.maxSize) = .ok () := by
    cases hd : field.declared with
    | none => rfl
    | some n => exact checkBound_eq_ok.2 fun max hm => hdeclared n hd ▸ hmax max hm
  have hpieces : source.pieces m.tag m.maxSize m.chunkSize = (bs.cut m.chunkSize, .ok ()) :=
    hdelivers.pieces hchunk hmax
  simp only [send, hbound, hsource, Option.getD_some, chunkRoom_eq hchunk hlimit, hpieces,
    Bytes.flatten_cut hchunk, Progress.ofStream_cut]
  -- The announced size, if any, is held against what was drained.
  cases hd : field.declared with
  | none => rfl
  | some n => simp [Wire.streamed, hdeclared n hd]

/-- `send` with a wrong size announced fails: at once, if that breaks the bound of the field, and
else when the source is drained. -/
theorem send_of_miscounted (hsource : field.source = some source) (hdelivers : source.Delivers bs)
    (hchunk : 1 ≤ m.chunkSize) (hlimit : m.chunkSize < Varint.limit)
    (hmax : ∀ max, m.maxSize = some max → bs.length ≤ max) {n : Nat}
    (hdeclared : field.declared = some n) (hn : n ≠ bs.length) :
    (field.send m).result = (checkBound m.tag n m.maxSize).bind fun _ =>
      .error (.invalidValue m.tag (.miscountedSource n bs.length)) := by
  have hpieces : source.pieces m.tag m.maxSize m.chunkSize = (bs.cut m.chunkSize, .ok ()) :=
    hdelivers.pieces hchunk hmax
  -- The bound is looked at before the source is.
  cases hbound : checkBound m.tag n m.maxSize with
  | error e => simp [send, hdeclared, hbound, Except.bind]
  | ok u =>
    simp [send, hdeclared, hbound, hsource, chunkRoom_eq hchunk hlimit, hpieces,
      Bytes.flatten_cut hchunk, hn, Except.bind]

/-- However its source is read, a payload goes through in the same chunks.  What `send` writes is
fixed by the payload, `chunkSize` and the `declared` size.  `receive` leaves a field in any state
with the payload as its `data`, sets its counts and `complete`, and stops right behind the stream.
Both sides give the same `Progress` reports.  The chunks make up the payload, all of them but the
last are full, and the last has an octet at least.  A `declared` size that is not that of the
payload makes `send` fail. -/
theorem transferred (hsource : field.source = some source) (hdelivers : source.Delivers bs)
    (hchunk : 1 ≤ m.chunkSize) (hlimit : m.chunkSize < Varint.limit)
    (hmax : ∀ max, m.maxSize = some max → bs.length ≤ max) :
    (field.declared = none ∨ field.declared = some bs.length ∧ bs.length < Wire.undeclaredSize →
      field.send m = ⟨Wire.streamed field.declared m.chunkSize bs, { field with source := none },
        .ok (), Progress.ofCut m.chunkSize bs⟩ ∧
      ∀ (old : StreamField) (p : Nat) (rest : Bytes),
        old.receive m ⟨p, Wire.streamed field.declared m.chunkSize bs ++ rest⟩ =
          ⟨{ source := old.source
             declared := field.declared
             data := bs
             received := bs.length
             chunks := (bs.length + m.chunkSize - 1) / m.chunkSize
             complete := true },
            ⟨p + (Wire.streamed field.declared m.chunkSize bs).length, rest⟩,
            .ok (), Progress.ofCut m.chunkSize bs⟩) ∧
    ((bs.cut m.chunkSize).flatten = bs ∧
      (∀ c ∈ (bs.cut m.chunkSize).dropLast, c.length = m.chunkSize) ∧
      ∀ c ∈ bs.cut m.chunkSize, c ≠ [] ∧ c.length ≤ m.chunkSize) ∧
    ∀ n, field.declared = some n → n ≠ bs.length →
      (field.send m).result = (checkBound m.tag n m.maxSize).bind fun _ =>
        .error (.invalidValue m.tag (.miscountedSource n bs.length)) := by
  refine ⟨fun hdeclared => ⟨?_, fun old p rest => ?_⟩,
    ⟨Bytes.flatten_cut hchunk bs, Bytes.mem_dropLast_cut hchunk bs, Bytes.mem_cut hchunk bs⟩,
    fun n hn hne => send_of_miscounted hsource hdelivers hchunk hlimit hmax hn hne⟩
  · apply send_of_delivers hsource hdelivers hchunk hlimit hmax
    intro n hn
    rcases hdeclared with hnone | ⟨hsome, -⟩
    · exact absurd (hn.symm.trans hnone) (by simp)
    · exact Option.some.inj (hn.symm.trans hsome)
  · -- The announced size is that of the payload, and is not the number that stands for none.
    have hsize : ∀ n, field.declared = some n →
        n < Varint.limit ∧ n = (bs.cut m.chunkSize).flatten.length := by
      intro n hn
      rw [Bytes.flatten_cut hchunk]
      rcases hdeclared with hnone | ⟨hsome, hlt⟩
      · exact absurd (hn.symm.trans hnone) (by simp)
      · obtain rfl := Option.some.inj (hn.symm.trans hsome)
        exact ⟨Nat.lt_trans hlt (by decide), rfl⟩
    -- So the reader takes the size as announced.
    have hkept : field.declared.filter (· != Wire.undeclaredSize) = field.declared := by
      rcases hdeclared with hnone | ⟨hsome, hlt⟩
      · rw [hnone]
        rfl
      · rw [hsome]
        exact Option.filter_eq_some_iff.2 ⟨rfl, by simpa using Nat.ne_of_lt hlt⟩
    have hpieces : ∀ c ∈ bs.cut m.chunkSize,
        c ≠ [] ∧ c.length < Varint.limit ∧ c.length ≤ m.chunkSize := by
      intro c hc
      obtain ⟨hne, hle⟩ := Bytes.mem_cut hchunk bs c hc
      exact ⟨hne, by omega, hle⟩
    have hbound : checkBound m.tag (bs.cut m.chunkSize).flatten.length m.maxSize = .ok () := by
      rw [Bytes.flatten_cut hchunk]
      exact checkBound_eq_ok.2 hmax
    have hreceived := receive_chunks hsize hpieces hbound old p rest
    rw [hkept, Bytes.flatten_cut hchunk, Bytes.length_cut, Progress.ofStream_cut] at hreceived
    exact hreceived

/-- `send` of five octets in chunks of two, although the first two are handed out one by one and a
read is interrupted behind them. -/
theorem transferred_in_pieces :
    let field : StreamField := .ofSource
      [.octets [1, 2] (some 1), .fault .interrupted, .octets [3, 4, 5] none, .nothing] (some 5)
    field.send ⟨3, "payload", some 5, 2⟩ =
      ⟨[5, 2, 1, 2, 2, 3, 4, 1, 5, 0], { field with source := none }, .ok (),
        [⟨2, false, 0⟩, ⟨2, false, 1⟩, ⟨1, false, 2⟩, ⟨0, true, 3⟩]⟩ := by
  intro field
  have htwo : Source.Delivers [.octets [3, 4, 5] none, .nothing] [3, 4, 5] :=
    .octets (by decide) (.nothing .ended)
  have hall : Source.Delivers
      [.octets [1, 2] (some 1), .fault .interrupted, .octets [3, 4, 5] none, .nothing]
      ([1, 2] ++ [3, 4, 5]) := .octets (by decide) (.interrupted htwo)
  have hsource : field.source = some
      [.octets [1, 2] (some 1), .fault .interrupted, .octets [3, 4, 5] none, .nothing] := rfl
  have hsent := ((transferred (m := ⟨3, "payload", some 5, 2⟩) hsource hall (by decide) (by decide)
    (fun max hm => Option.some.inj hm ▸ Nat.le_refl 5)).1 (.inr ⟨rfl, by decide⟩)).1
  have hoctets : Wire.streamed (some 5) 2 ([1, 2] ++ [3, 4, 5]) = [5, 2, 1, 2, 2, 3, 4, 1, 5, 0] := by
    decide
  rw [hsent]
  exact congrArg (Sent.mk · _ _ _) hoctets

end StreamField

end Storefront
