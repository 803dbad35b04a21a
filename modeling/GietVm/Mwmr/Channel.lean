import GietVm.Library.Ring
import GietVm.Library.Word

/-!
# The MWMR channel

A channel of `mwmr_channel.c` is a circular buffer of words with a status: the number of
words it holds, the index of the first of them and the index of the next free cell. Items
are `width` words long. The four functions share one locked section. It compares the words
that are available (free cells for a writer, held words for a reader) with the request and
moves all of it, nothing, or as many items as possible.
-/

namespace GietVm.Mwmr

open Library

/-- The fields of `mwmr_channel_t` that describe the buffer, and the buffer itself. -/
structure Channel (W : Type*) where
  sts : ℕ
  ptr : ℕ
  ptw : ℕ
  depth : ℕ
  width : ℕ
  data : ℕ → W

/-- The three cases of a locked section, with the number of words to move. -/
inductive Transfer
  /-- The whole request. -/
  | all (nwords : ℕ)
  /-- Not even one item. -/
  | nothing
  /-- As many items as possible. -/
  | part (nwords : ℕ)

/-- The number of words that the loop of a section moves. -/
def Transfer.words : Transfer → ℕ
  | .all nwords => nwords
  | .nothing => 0
  | .part nwords => nwords

/-- The case of a section, from the words that are available. -/
def transfer (avail width items : ℕ) : Transfer :=
  let nwords := mul32 width items
  if nwords ≤ avail then .all nwords
  else if avail < width then .nothing
  else .part (avail / width * width)

variable {W : Type*}

/-- `mwmr_init`, on a buffer with some contents. -/
def mwmrInit (buffer : ℕ → W) (width nitems : ℕ) : Channel W :=
  { sts := 0, ptr := 0, ptw := 0, depth := mul32 width nitems, width := width, data := buffer }

/-- The case of a writer. -/
def Channel.writeTransfer (ch : Channel W) (items : ℕ) : Transfer :=
  transfer (sub32 ch.depth ch.sts) ch.width items

/-- The case of a reader. -/
def Channel.readTransfer (ch : Channel W) (items : ℕ) : Transfer :=
  transfer ch.sts ch.width items

/-- The loop of a writer, over the words of its memory from `buffer` on, and the updates of
the status and the index. -/
def Channel.writeWords (ch : Channel W) (mem : ℕ → W) (buffer nwords : ℕ) : Channel W :=
  let r := ringWrite ch.depth mem nwords buffer ch.data ch.ptw
  { ch with data := r.1, ptw := r.2, sts := add32 ch.sts nwords }

/-- The loop of a reader, into its memory from `buffer` on, and the updates of the status and
the index. -/
def Channel.readWords (ch : Channel W) (mem : ℕ → W) (buffer nwords : ℕ) :
    Channel W × (ℕ → W) :=
  let r := ringRead ch.depth ch.data nwords buffer mem ch.ptr
  ({ ch with ptr := r.2, sts := sub32 ch.sts nwords }, r.1)

/-- `nb_mwmr_write`, with its returned value. -/
def nbMwmrWrite (ch : Channel W) (mem : ℕ → W) (buffer items : ℕ) : Channel W × ℕ :=
  if items = 0 then (ch, 0)
  else
    match ch.writeTransfer items with
    | .all nwords => (ch.writeWords mem buffer nwords, items)
    | .nothing => (ch, 0)
    | .part nwords => (ch.writeWords mem buffer nwords, nwords / ch.width)

/-- `nb_mwmr_read`, with the memory of the reader and the returned value. -/
def nbMwmrRead (ch : Channel W) (mem : ℕ → W) (buffer items : ℕ) :
    Channel W × (ℕ → W) × ℕ :=
  if items = 0 then (ch, mem, 0)
  else
    match ch.readTransfer items with
    | .all nwords =>
      let r := ch.readWords mem buffer nwords
      (r.1, r.2, items)
    | .nothing => (ch, mem, 0)
    | .part nwords =>
      let r := ch.readWords mem buffer nwords
      (r.1, r.2, nwords / ch.width)

/-- One turn of the loop of `mwmr_write`: the values of `buffer` and `items` for the next
turn, or none when the function returns. -/
def mwmrWriteTurn (ch : Channel W) (mem : ℕ → W) (buffer items : ℕ) :
    Channel W × Option (ℕ × ℕ) :=
  match ch.writeTransfer items with
  | .all nwords => (ch.writeWords mem buffer nwords, none)
  | .nothing => (ch, some (buffer, items))
  | .part nwords =>
    (ch.writeWords mem buffer nwords, some (buffer + nwords, sub32 items (nwords / ch.width)))

/-- One turn of the loop of `mwmr_read`. -/
def mwmrReadTurn (ch : Channel W) (mem : ℕ → W) (buffer items : ℕ) :
    Channel W × (ℕ → W) × Option (ℕ × ℕ) :=
  match ch.readTransfer items with
  | .all nwords =>
    let r := ch.readWords mem buffer nwords
    (r.1, r.2, none)
  | .nothing => (ch, mem, some (buffer, items))
  | .part nwords =>
    let r := ch.readWords mem buffer nwords
    (r.1, r.2, some (buffer + nwords, sub32 items (nwords / ch.width)))

/-! ## The cases of a section -/

/-- A section moves a whole number of items, at most the request and at most the words that
are available. -/
theorem transfer_words {avail width items : ℕ} (hsize : width * items < 0x100000000) :
    ∃ k ≤ items, (transfer avail width items).words = width * k ∧ width * k ≤ avail := by
  rw [transfer, mul32_eq hsize]
  split
  · rename_i hall
    exact ⟨items, le_rfl, rfl, hall⟩
  · split
    · exact ⟨0, Nat.zero_le _, rfl, Nat.zero_le _⟩
    · rename_i hall hone
      have hle : width * (avail / width) ≤ avail := Nat.mul_div_le avail width
      refine ⟨avail / width, ?_, Nat.mul_comm _ _, hle⟩
      have hlt : width * (avail / width) < width * items := by omega
      exact (Nat.lt_of_mul_lt_mul_left hlt).le

/-- When the whole request is moved the section has moved `items` items. -/
theorem transfer_all {avail width items nwords : ℕ} (hsize : width * items < 0x100000000)
    (h : transfer avail width items = .all nwords) : nwords = width * items := by
  rw [transfer, mul32_eq hsize] at h
  split at h
  · exact (Transfer.all.inj h).symm
  · split at h <;> cases h

/-- A partial transfer moves a whole number of items, fewer than requested. -/
theorem transfer_part {avail width items nwords : ℕ} (hwidth : 0 < width)
    (hsize : width * items < 0x100000000) (h : transfer avail width items = .part nwords) :
    nwords = width * (nwords / width) ∧ nwords / width < items := by
  rw [transfer, mul32_eq hsize] at h
  split at h
  · cases h
  · split at h
    · cases h
    · have hwords := Transfer.part.inj h
      have hdiv : nwords / width = avail / width := by
        rw [← hwords, Nat.mul_div_cancel _ hwidth]
      have hle : width * (avail / width) ≤ avail := Nat.mul_div_le avail width
      refine ⟨by rw [hdiv, ← hwords, Nat.mul_comm], ?_⟩
      rw [hdiv]
      have hlt : width * (avail / width) < width * items := by omega
      exact Nat.lt_of_mul_lt_mul_left hlt

/-! ## The words of a channel -/

/-- The words that a channel holds, oldest first. -/
def Channel.contents (ch : Channel W) : List W := ringContents ch.data ch.depth ch.ptr ch.sts

/-- The words of a memory from an address on. -/
def wordsAt (mem : ℕ → W) (buffer n : ℕ) : List W :=
  (List.range n).map fun i => mem (buffer + i)

@[simp] theorem wordsAt_length (mem : ℕ → W) (buffer n : ℕ) :
    (wordsAt mem buffer n).length = n := by
  rw [wordsAt, List.length_map, List.length_range]

theorem wordsAt_add (mem : ℕ → W) (buffer m n : ℕ) :
    wordsAt mem buffer (m + n) = wordsAt mem buffer m ++ wordsAt mem (buffer + m) n := by
  rw [wordsAt, List.range_add, List.map_append, List.map_map]
  congr 1
  apply List.map_congr_left
  intro i _
  change mem (buffer + (m + i)) = mem (buffer + m + i)
  rw [Nat.add_assoc]

theorem wordsAt_congr {mem mem' : ℕ → W} {buffer n : ℕ}
    (h : ∀ j, buffer ≤ j → j < buffer + n → mem' j = mem j) :
    wordsAt mem' buffer n = wordsAt mem buffer n := by
  apply List.map_congr_left
  intro i hi
  have hlt := List.mem_range.mp hi
  exact h _ (by omega) (by omega)

/-- The status of a channel is consistent. -/
structure Channel.Ok (ch : Channel W) : Prop where
  width_pos : 0 < ch.width
  width_dvd : ch.width ∣ ch.sts
  sts_le : ch.sts ≤ ch.depth
  depth_lt : ch.depth < 0x100000000
  ptr_mod : ch.ptr % ch.depth = ch.ptr
  ptw_eq : ch.ptw = (ch.ptr + ch.sts) % ch.depth

theorem mwmrInit_ok (buffer : ℕ → W) {width nitems : ℕ} (hwidth : 0 < width) :
    (mwmrInit buffer width nitems).Ok where
  width_pos := hwidth
  width_dvd := dvd_zero _
  sts_le := Nat.zero_le _
  depth_lt := mul32_lt _ _
  ptr_mod := Nat.zero_mod _
  ptw_eq := (Nat.zero_mod _).symm

/-- The words of a writer go to the end of the channel. -/
theorem Channel.Ok.writeWords {ch : Channel W} (h : ch.Ok) (mem : ℕ → W) (buffer : ℕ)
    {k : ℕ} (hroom : ch.width * k ≤ sub32 ch.depth ch.sts) :
    (ch.writeWords mem buffer (ch.width * k)).Ok ∧
    (ch.writeWords mem buffer (ch.width * k)).contents =
      ch.contents ++ wordsAt mem buffer (ch.width * k) := by
  have hlt := h.depth_lt
  have hle := h.sts_le
  rw [sub32_eq hle hlt] at hroom
  have hsum : add32 ch.sts (ch.width * k) = ch.sts + ch.width * k := add32_eq (by omega)
  have hroom' : ch.sts + ch.width * k ≤ ch.depth := by omega
  have hring := @ringWrite_spec _ _ mem (ch.width * k) buffer ch.data ch.ptr _ hroom'
  rw [← h.ptw_eq] at hring
  rw [Channel.writeWords, Channel.contents, hsum]
  refine ⟨⟨h.width_pos, ?_, ?_, hlt, h.ptr_mod, hring.2⟩, hring.1⟩
  · exact Nat.dvd_add h.width_dvd (dvd_mul_right _ _)
  · change ch.sts + ch.width * k ≤ ch.depth
    omega

/-- A reader gets the first words of the channel, and nothing else of its memory changes. -/
theorem Channel.Ok.readWords {ch : Channel W} (h : ch.Ok) (mem : ℕ → W) (buffer : ℕ)
    {k : ℕ} (havail : ch.width * k ≤ ch.sts) :
    (ch.readWords mem buffer (ch.width * k)).1.Ok ∧
    ch.contents = wordsAt (ch.readWords mem buffer (ch.width * k)).2 buffer (ch.width * k) ++
      (ch.readWords mem buffer (ch.width * k)).1.contents ∧
    ∀ j, j < buffer ∨ buffer + ch.width * k ≤ j →
      (ch.readWords mem buffer (ch.width * k)).2 j = mem j := by
  have hlt := h.depth_lt
  have hle := h.sts_le
  have hdiff : sub32 ch.sts (ch.width * k) = ch.sts - ch.width * k :=
    sub32_eq havail (by omega)
  obtain ⟨hread, hkeep, hptr⟩ := ringRead_spec ch.data (ch.width * k) buffer mem h.ptr_mod
    (by omega)
  have hsplit := ringContents_add ch.data ch.depth ch.ptr (ch.width * k)
    (ch.sts - ch.width * k)
  rw [Nat.add_sub_cancel' havail] at hsplit
  rw [Channel.readWords]
  dsimp only
  rw [hdiff, hptr]
  refine ⟨⟨h.width_pos, ?_, ?_, hlt, Nat.mod_mod _ _, ?_⟩, ?_, hkeep⟩
  · exact Nat.dvd_sub h.width_dvd (dvd_mul_right _ _)
  · change ch.sts - ch.width * k ≤ ch.depth
    omega
  · change ch.ptw = ((ch.ptr + ch.width * k) % ch.depth + (ch.sts - ch.width * k)) % ch.depth
    rw [Nat.mod_add_mod, Nat.add_assoc, Nat.add_sub_cancel' havail, h.ptw_eq]
  · rw [Channel.contents, hsplit, ← hread]
    rfl

/-! ## The functions -/

/-- A channel after a section of a writer that moved some words. -/
structure Channel.Wrote (ch ch' : Channel W) (words : List W) : Prop where
  ok : ch'.Ok
  width_eq : ch'.width = ch.width
  depth_eq : ch'.depth = ch.depth
  contents : ch'.contents = ch.contents ++ words

/-- A channel after a section of a reader that moved some words. -/
structure Channel.Read (ch ch' : Channel W) (words : List W) : Prop where
  ok : ch'.Ok
  width_eq : ch'.width = ch.width
  depth_eq : ch'.depth = ch.depth
  contents : ch.contents = words ++ ch'.contents

/-- The section of a writer moves `k` items. -/
theorem Channel.Ok.writeTransfer {ch : Channel W} (h : ch.Ok) (mem : ℕ → W) (buffer : ℕ)
    {items : ℕ} (hsize : ch.width * items < 0x100000000) :
    ∃ k ≤ items, (ch.writeTransfer items).words = ch.width * k ∧
      ch.Wrote (ch.writeWords mem buffer (ch.width * k)) (wordsAt mem buffer (ch.width * k)) := by
  obtain ⟨k, hle, hwords, hroom⟩ := transfer_words hsize
  obtain ⟨hok, hcontents⟩ := h.writeWords mem buffer hroom
  exact ⟨k, hle, hwords, hok, rfl, rfl, hcontents⟩

/-- The section of a reader moves `k` items. -/
theorem Channel.Ok.readTransfer {ch : Channel W} (h : ch.Ok) (mem : ℕ → W) (buffer : ℕ)
    {items : ℕ} (hsize : ch.width * items < 0x100000000) :
    ∃ k ≤ items, (ch.readTransfer items).words = ch.width * k ∧
      ch.Read (ch.readWords mem buffer (ch.width * k)).1
        (wordsAt (ch.readWords mem buffer (ch.width * k)).2 buffer (ch.width * k)) ∧
      ∀ j, j < buffer ∨ buffer + ch.width * k ≤ j →
        (ch.readWords mem buffer (ch.width * k)).2 j = mem j := by
  obtain ⟨k, hle, hwords, havail⟩ := transfer_words hsize
  obtain ⟨hok, hcontents, hkeep⟩ := h.readWords mem buffer havail
  exact ⟨k, hle, hwords, ⟨hok, rfl, rfl, hcontents⟩, hkeep⟩

/-- Moving no words changes nothing. -/
theorem Channel.Ok.writeWords_zero {ch : Channel W} (h : ch.Ok) (mem : ℕ → W) (buffer : ℕ) :
    ch.writeWords mem buffer 0 = ch := by
  have hsts : add32 ch.sts 0 = ch.sts := add32_eq (h.sts_le.trans_lt h.depth_lt)
  rw [Channel.writeWords, ringWrite, hsts]

theorem Channel.Ok.readWords_zero {ch : Channel W} (h : ch.Ok) (mem : ℕ → W) (buffer : ℕ) :
    ch.readWords mem buffer 0 = (ch, mem) := by
  have hsts : sub32 ch.sts 0 = ch.sts := by
    rw [sub32_eq (Nat.zero_le _) (h.sts_le.trans_lt h.depth_lt), Nat.sub_zero]
  rw [Channel.readWords, ringRead, hsts]

/-- The number of items of a section, from its case. -/
theorem transfer_items {avail width items k : ℕ} (hwidth : 0 < width)
    (hsize : width * items < 0x100000000)
    (hk : (transfer avail width items).words = width * k) :
    (transfer avail width items = .all (width * k) ∧ k = items) ∨
    (transfer avail width items = .nothing ∧ k = 0) ∨
    (transfer avail width items = .part (width * k) ∧ k < items) := by
  cases hcase : transfer avail width items with
  | all nwords =>
    have hn : nwords = width * k := by rw [← hk, hcase, Transfer.words]
    have hall := transfer_all hsize hcase
    exact Or.inl ⟨congrArg _ hn, Nat.eq_of_mul_eq_mul_left hwidth (hn.symm.trans hall)⟩
  | nothing =>
    have hn : 0 = width * k := by rw [← hk, hcase, Transfer.words]
    have hzero : k = 0 := (Nat.mul_eq_zero.mp hn.symm).resolve_left hwidth.ne'
    exact Or.inr (Or.inl ⟨rfl, hzero⟩)
  | part nwords =>
    have hn : nwords = width * k := by rw [← hk, hcase, Transfer.words]
    obtain ⟨hpart, hlt⟩ := transfer_part hwidth hsize hcase
    have hdiv : nwords / width = k := by rw [hn, Nat.mul_div_cancel_left _ hwidth]
    exact Or.inr (Or.inr ⟨congrArg _ hn, hdiv ▸ hlt⟩)

/-- `nb_mwmr_write` moves as many items as it returns. -/
theorem nbMwmrWrite_spec {ch : Channel W} (h : ch.Ok) (mem : ℕ → W) (buffer : ℕ) {items : ℕ}
    (hpos : 0 < items) (hsize : ch.width * items < 0x100000000) :
    ∃ k ≤ items, (ch.writeTransfer items).words = ch.width * k ∧
      (nbMwmrWrite ch mem buffer items).2 = k ∧
      ch.Wrote (nbMwmrWrite ch mem buffer items).1 (wordsAt mem buffer (ch.width * k)) := by
  obtain ⟨k, hle, hwords, hwrote⟩ := h.writeTransfer mem buffer hsize
  refine ⟨k, hle, hwords, ?_⟩
  rw [nbMwmrWrite, if_neg hpos.ne']
  obtain ⟨hcase, hk⟩ | ⟨hcase, hk⟩ | ⟨hcase, -⟩ := transfer_items h.width_pos hsize hwords
  · rw [Channel.writeTransfer, hcase]
    exact ⟨hk.symm, hwrote⟩
  · rw [Channel.writeTransfer, hcase]
    rw [hk, Nat.mul_zero, h.writeWords_zero] at hwrote
    rw [hk, Nat.mul_zero]
    exact ⟨rfl, hwrote⟩
  · rw [Channel.writeTransfer, hcase]
    exact ⟨Nat.mul_div_cancel_left _ h.width_pos, hwrote⟩

/-- `nb_mwmr_read` moves as many items as it returns. -/
theorem nbMwmrRead_spec {ch : Channel W} (h : ch.Ok) (mem : ℕ → W) (buffer : ℕ) {items : ℕ}
    (hpos : 0 < items) (hsize : ch.width * items < 0x100000000) :
    ∃ k ≤ items, (ch.readTransfer items).words = ch.width * k ∧
      (nbMwmrRead ch mem buffer items).2.2 = k ∧
      ch.Read (nbMwmrRead ch mem buffer items).1
        (wordsAt (nbMwmrRead ch mem buffer items).2.1 buffer (ch.width * k)) ∧
      ∀ j, j < buffer ∨ buffer + ch.width * k ≤ j →
        (nbMwmrRead ch mem buffer items).2.1 j = mem j := by
  obtain ⟨k, hle, hwords, hread, hkeep⟩ := h.readTransfer mem buffer hsize
  refine ⟨k, hle, hwords, ?_⟩
  rw [nbMwmrRead, if_neg hpos.ne']
  obtain ⟨hcase, hk⟩ | ⟨hcase, hk⟩ | ⟨hcase, -⟩ := transfer_items h.width_pos hsize hwords
  · rw [Channel.readTransfer, hcase]
    exact ⟨hk.symm, hread, hkeep⟩
  · rw [Channel.readTransfer, hcase]
    rw [hk, Nat.mul_zero, h.readWords_zero] at hread
    rw [hk, Nat.mul_zero]
    exact ⟨rfl, hread, fun _ _ => rfl⟩
  · rw [Channel.readTransfer, hcase]
    exact ⟨Nat.mul_div_cancel_left _ h.width_pos, hread, hkeep⟩

/-- A turn of `mwmr_write` moves `k` items; it is the last one when these are all, and asks
for the others otherwise. -/
theorem mwmrWriteTurn_spec {ch : Channel W} (h : ch.Ok) (mem : ℕ → W) (buffer : ℕ)
    {items : ℕ} (hpos : 0 < items) (hlt : items < 0x100000000)
    (hsize : ch.width * items < 0x100000000) :
    ∃ k ≤ items, (ch.writeTransfer items).words = ch.width * k ∧
      ch.Wrote (mwmrWriteTurn ch mem buffer items).1 (wordsAt mem buffer (ch.width * k)) ∧
      ((mwmrWriteTurn ch mem buffer items).2 = none ∧ k = items ∨
        (mwmrWriteTurn ch mem buffer items).2 = some (buffer + ch.width * k, items - k) ∧
          k < items) := by
  obtain ⟨k, hle, hwords, hwrote⟩ := h.writeTransfer mem buffer hsize
  refine ⟨k, hle, hwords, ?_⟩
  rw [mwmrWriteTurn]
  obtain ⟨hcase, hk⟩ | ⟨hcase, hk⟩ | ⟨hcase, hk⟩ := transfer_items h.width_pos hsize hwords
  · rw [Channel.writeTransfer, hcase]
    exact ⟨hwrote, Or.inl ⟨rfl, hk⟩⟩
  · rw [Channel.writeTransfer, hcase]
    rw [hk, Nat.mul_zero, h.writeWords_zero] at hwrote
    rw [hk, Nat.mul_zero]
    exact ⟨hwrote, Or.inr ⟨rfl, hpos⟩⟩
  · rw [Channel.writeTransfer, hcase]
    refine ⟨hwrote, Or.inr ⟨?_, hk⟩⟩
    dsimp only
    rw [Nat.mul_div_cancel_left _ h.width_pos, sub32_eq hle hlt]

/-- A turn of `mwmr_read` moves `k` items; it is the last one when these are all, and asks
for the others otherwise. -/
theorem mwmrReadTurn_spec {ch : Channel W} (h : ch.Ok) (mem : ℕ → W) (buffer : ℕ)
    {items : ℕ} (hpos : 0 < items) (hlt : items < 0x100000000)
    (hsize : ch.width * items < 0x100000000) :
    ∃ k ≤ items, (ch.readTransfer items).words = ch.width * k ∧
      ch.Read (mwmrReadTurn ch mem buffer items).1
        (wordsAt (mwmrReadTurn ch mem buffer items).2.1 buffer (ch.width * k)) ∧
      (∀ j, j < buffer ∨ buffer + ch.width * k ≤ j →
        (mwmrReadTurn ch mem buffer items).2.1 j = mem j) ∧
      ((mwmrReadTurn ch mem buffer items).2.2 = none ∧ k = items ∨
        (mwmrReadTurn ch mem buffer items).2.2 = some (buffer + ch.width * k, items - k) ∧
          k < items) := by
  obtain ⟨k, hle, hwords, hread, hkeep⟩ := h.readTransfer mem buffer hsize
  refine ⟨k, hle, hwords, ?_⟩
  rw [mwmrReadTurn]
  obtain ⟨hcase, hk⟩ | ⟨hcase, hk⟩ | ⟨hcase, hk⟩ := transfer_items h.width_pos hsize hwords
  · rw [Channel.readTransfer, hcase]
    exact ⟨hread, hkeep, Or.inl ⟨rfl, hk⟩⟩
  · rw [Channel.readTransfer, hcase]
    rw [hk, Nat.mul_zero, h.readWords_zero] at hread
    rw [hk, Nat.mul_zero]
    exact ⟨hread, fun _ _ => rfl, Or.inr ⟨rfl, hpos⟩⟩
  · rw [Channel.readTransfer, hcase]
    refine ⟨hread, hkeep, Or.inr ⟨?_, hk⟩⟩
    dsimp only
    rw [Nat.mul_div_cancel_left _ h.width_pos, sub32_eq hle hlt]

end GietVm.Mwmr
