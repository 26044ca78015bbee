import FerrumVM.GpuControlQueue

/-! TRANSFER_TO_HOST_2D: the pixels that a transfer takes from guest memory. The backing pages of a resource
are read row by row into a buffer that all rows share, and the rows of the rectangle are overwritten with
what the buffer then holds. -/

namespace FerrumVM

open Base Program VirtioGpuTransferToHost

variable {req : VirtioGpuTransferToHost}

theorem splice_nil (bs : Bytes) (start : Nat) : splice bs start [] = bs := by
  simp [splice]

theorem splice_splice {bs first : Bytes} {start : Nat} (h : start + first.length ≤ bs.length) (second : Bytes) :
    splice (splice bs start first) (start + first.length) second = splice bs start (first ++ second) := by
  have hfront : (bs.take start ++ first).length = start + first.length := by
    rw [List.length_append, List.length_take]
    omega
  unfold splice
  rw [List.take_left' hfront, ← List.drop_drop, List.drop_left' hfront, List.drop_drop, List.length_append]
  simp [Nat.add_assoc]

namespace VirtioGpu

/-! ### What is read of the backing pages -/

/-- The bytes of the pages from `start` on, as many as there is room for. Each page is read with one access, and
a page that does not have an address there is the last. -/
def backingBytes (m : Ram) : List VirtioGpuMemEntry → (start room : Nat) → Bytes
  | [], _, _ => []
  | entry :: rest, start, room =>
    if room = 0 then []
    else if start < entry.length.toNat then
      if entry.addr.toNat + start < 2 ^ 64 then
        let n := min (entry.length.toNat - start) room
        m.load (UInt64.ofNat (entry.addr.toNat + start)) n ++ backingBytes m rest 0 (room - n)
      else []
    else backingBytes m rest (start - entry.length.toNat) room

theorem length_backingBytes_le (m : Ram) (entries : List VirtioGpuMemEntry) (start room : Nat) :
    (backingBytes m entries start room).length ≤ room := by
  induction entries generalizing start room with
  | nil => exact Nat.zero_le _
  | cons entry rest ih =>
    unfold backingBytes
    split_ifs
    · exact Nat.zero_le _
    · have hrest := ih 0 (room - min (entry.length.toNat - start) room)
      rw [List.length_append, Ram.length_load]
      omega
    · exact Nat.zero_le _
    · exact ih _ _

def backingTotal (entries : List VirtioGpuMemEntry) : Nat := (entries.map (·.length.toNat)).sum

theorem length_backingBytes_le_total (m : Ram) (entries : List VirtioGpuMemEntry) (start room : Nat) :
    (backingBytes m entries start room).length ≤ backingTotal entries - start := by
  induction entries generalizing start room with
  | nil => exact Nat.zero_le _
  | cons entry rest ih =>
    have htotal : backingTotal (entry :: rest) = entry.length.toNat + backingTotal rest := rfl
    unfold backingBytes
    split_ifs
    · exact Nat.zero_le _
    · have hrest := ih 0 (room - min (entry.length.toNat - start) room)
      rw [List.length_append, Ram.length_load]
      omega
    · exact Nat.zero_le _
    · have hrest := ih (start - entry.length.toNat) room
      omega

theorem readBackingRange_eq {D : Type} {start : Nat} (hstart : start < 2 ^ 64) (entries : List VirtioGpuMemEntry)
    {copied skipped : Nat} {out : Bytes} (hcopied : copied ≤ out.length) (c : Ctx D Ram) :
    readBackingRange start entries copied skipped out c =
      .ok (splice out copied (backingBytes c.mem entries (start - skipped) (out.length - copied))) c := by
  induction entries generalizing copied skipped out with
  | nil =>
    rw [backingBytes, splice_nil]
    rfl
  | cons entry rest ih =>
    -- Past the end of the address space `skipped` stands still, and nothing is skipped any more.
    have hskip : start - saturatingUsize (skipped + entry.length.toNat) = start - skipped - entry.length.toNat := by
      unfold saturatingUsize
      omega
    unfold readBackingRange backingBytes
    dsimp only
    by_cases hfull : copied = out.length
    · rw [if_pos hfull, if_pos (Nat.sub_eq_zero_of_le (Nat.le_of_eq hfull.symm)), splice_nil]
      rfl
    rw [if_neg hfull, if_neg (Nat.sub_ne_zero_of_lt (Nat.lt_of_le_of_ne hcopied hfull))]
    by_cases hin : start - skipped < entry.length.toNat
    · rw [if_pos hin, if_pos hin]
      unfold checkedUsize
      split_ifs with haddr
      · generalize hn : min (entry.length.toNat - (start - skipped)) (out.length - copied) = n
        generalize htmp : c.mem.load (UInt64.ofNat (entry.addr.toNat + (start - skipped))) n = tmp
        have hlen : tmp.length = n := by rw [← htmp, Ram.length_load]
        have hcopy : copySlice out copied (copied + n) tmp = .ok (splice out copied tmp) :=
          if_pos ⟨Nat.le_add_right _ _, by omega, by omega⟩
        have hspliced : (splice out copied tmp).length = out.length := length_splice (by omega)
        have hzero : start - skipped - entry.length.toNat = 0 := by omega
        dsimp only
        rw [bind_of_ok (Serve.readGuestMemoryAlloc_eq_ok.mpr ⟨congrArg Except.ok htmp, rfl⟩),
          bind_of_ok (lift_eq_ok.mpr ⟨hcopy, rfl⟩), ih (by omega), hskip, hspliced, hzero,
          ← splice_splice (by omega), hlen, Nat.sub_add_eq]
      · rw [splice_nil]
        rfl
    · rw [if_neg hin, if_neg hin, ih hcopied, hskip]

/-! ### The rows -/

section Rows

variable (m : Ram) (r : GpuResource) (rect : DisplayRect) (base : Nat)

def rowLen (rect : DisplayRect) : Nat := rect.width.toNat * bytesPerPixel

def rowPlace (r : GpuResource) (rect : DisplayRect) (row : Nat) : Nat :=
  (rect.y.toNat + row) * r.stride + rect.x.toNat * bytesPerPixel

def rowBuffer : (row : Nat) → Bytes
  | 0 => List.replicate (rowLen rect) 0
  | row + 1 => splice (rowBuffer row) 0 (backingBytes m r.backing (base + row * r.stride) (rowLen rect))

/-- The contents of the resource once `row` rows have been copied. The rows end where their place in the backing
pages is past the address space. -/
def rowsCopied : (row : Nat) → Bytes
  | 0 => r.data
  | row + 1 =>
    if base + row * r.stride < 2 ^ 64 then
      splice (rowsCopied row) (rowPlace r rect row) (rowBuffer m r rect base (row + 1))
    else rowsCopied row

/-- The byte that the last of `row` rows to read one for column `j` has read for it, and zero if there is none. -/
def lastByte (j : Nat) : (row : Nat) → UInt8
  | 0 => 0
  | row + 1 => (backingBytes m r.backing (base + row * r.stride) (rowLen rect))[j]?.getD (lastByte j row)

theorem length_rowBuffer (row : Nat) : (rowBuffer m r rect base row).length = rowLen rect := by
  induction row with
  | zero => exact List.length_replicate
  | succ row ih =>
    have hle := length_backingBytes_le m r.backing (base + row * r.stride) (rowLen rect)
    rw [rowBuffer, length_splice (by omega), ih]

theorem getElem?_rowBuffer {j : Nat} (hj : j < rowLen rect) (row : Nat) :
    (rowBuffer m r rect base row)[j]? = some (lastByte m r rect base j row) := by
  induction row with
  | zero => exact List.getElem?_replicate_of_lt hj
  | succ row ih =>
    have hle := length_backingBytes_le m r.backing (base + row * r.stride) (rowLen rect)
    have hlen := length_rowBuffer m r rect base row
    rw [rowBuffer, lastByte, getElem?_splice (by omega), ih, Nat.zero_add, Nat.sub_zero]
    by_cases hread : j < (backingBytes m r.backing (base + row * r.stride) (rowLen rect)).length
    · rw [if_pos ⟨Nat.zero_le _, hread⟩, List.getElem?_eq_getElem hread, Option.getD_some]
    · rw [if_neg fun h => hread h.2, List.getElem?_eq_none (Nat.le_of_not_lt hread), Option.getD_none]

variable {r rect} (hvalid : r.Valid) (hin : r.Inside rect)

include hvalid hin

variable {row : Nat}

theorem rowPlace_add_le {later : Nat} (h : row < later) : rowPlace r rect row + rowLen rect ≤ rowPlace r rect later := by
  have hstride := hvalid.stride_eq
  have hright := hin.1
  have hle : (rect.y.toNat + row + 1) * r.stride ≤ (rect.y.toNat + later) * r.stride :=
    Nat.mul_le_mul_right _ (by omega)
  rw [Nat.succ_mul] at hle
  unfold rowPlace rowLen bytesPerPixel
  omega

theorem rowPlace_add_le_length (hrow : row < rect.height.toNat) :
    rowPlace r rect row + rowLen rect ≤ r.data.length := by
  have hstride := hvalid.stride_eq
  obtain ⟨hright, hbottom⟩ := hin
  have hle : (rect.y.toNat + row + 1) * r.stride ≤ r.height.toNat * r.stride := Nat.mul_le_mul_right _ (by omega)
  rw [Nat.succ_mul] at hle
  rw [hvalid.length_eq, Nat.mul_comm r.stride]
  unfold rowPlace rowLen bytesPerPixel
  omega

theorem length_rowsCopied (hrow : row ≤ rect.height.toNat) :
    (rowsCopied m r rect base row).length = r.data.length := by
  induction row with
  | zero => rfl
  | succ row ih =>
    have hfits := rowPlace_add_le_length hvalid hin (Nat.lt_of_succ_le hrow)
    have hlen := length_rowBuffer m r rect base (row + 1)
    have ih := ih (by omega)
    unfold rowsCopied
    split_ifs
    · rw [length_splice (by omega), ih]
    · exact ih

omit hvalid hin in
theorem rowsCopied_of_past (hpast : 2 ^ 64 ≤ base + row * r.stride) (count : Nat) :
    rowsCopied m r rect base (row + count) = rowsCopied m r rect base row := by
  induction count with
  | zero => rfl
  | succ count ih =>
    have hle : row * r.stride ≤ (row + count) * r.stride := Nat.mul_le_mul_right _ (Nat.le_add_right _ _)
    rw [← Nat.add_assoc, rowsCopied, if_neg (by omega), ih]

theorem getElem?_rowsCopied_succ {i : Nat} (hrow : row < rect.height.toNat) :
    (rowsCopied m r rect base (row + 1))[i]? =
      if base + row * r.stride < 2 ^ 64 ∧ rowPlace r rect row ≤ i ∧ i < rowPlace r rect row + rowLen rect then
        some (lastByte m r rect base (i - rowPlace r rect row) (row + 1))
      else (rowsCopied m r rect base row)[i]? := by
  have hfits := rowPlace_add_le_length hvalid hin hrow
  have hlen := length_rowsCopied m base hvalid hin (Nat.le_of_lt hrow)
  have hbuf := length_rowBuffer m r rect base (row + 1)
  rw [rowsCopied]
  by_cases hpast : base + row * r.stride < 2 ^ 64
  · rw [if_pos hpast, getElem?_splice (by omega), hbuf]
    by_cases hmem : rowPlace r rect row ≤ i ∧ i < rowPlace r rect row + rowLen rect
    · rw [if_pos hmem, if_pos ⟨hpast, hmem⟩, getElem?_rowBuffer m r rect base (by omega)]
    · rw [if_neg hmem, if_neg fun h => hmem h.2]
  · rw [if_neg hpast, if_neg fun h => hpast h.1]

theorem getElem?_rowsCopied_of_beside {i : Nat} (hrow : row ≤ rect.height.toNat)
    (hbeside : ∀ k < row, ¬(rowPlace r rect k ≤ i ∧ i < rowPlace r rect k + rowLen rect)) :
    (rowsCopied m r rect base row)[i]? = r.data[i]? := by
  induction row with
  | zero => rfl
  | succ row ih =>
    rw [getElem?_rowsCopied_succ m base hvalid hin hrow, if_neg fun h => hbeside row (Nat.lt_succ_self row) h.2]
    exact ih (Nat.le_of_succ_le hrow) fun k hk => hbeside k (Nat.lt_succ_of_lt hk)

theorem getElem?_rowsCopied {k j : Nat} (hrow : row ≤ rect.height.toNat) (hk : k < row) (hj : j < rowLen rect) :
    (rowsCopied m r rect base row)[rowPlace r rect k + j]? =
      if base + k * r.stride < 2 ^ 64 then some (lastByte m r rect base j (k + 1))
      else r.data[rowPlace r rect k + j]? := by
  induction row with
  | zero => exact absurd hk (Nat.not_lt_zero k)
  | succ row ih =>
    rw [getElem?_rowsCopied_succ m base hvalid hin hrow]
    rcases Nat.lt_succ_iff_lt_or_eq.mp hk with hearlier | rfl
    · have hplace := rowPlace_add_le hvalid hin hearlier
      rw [if_neg fun h => by omega]
      exact ih (Nat.le_of_succ_le hrow) hearlier
    · by_cases hpast : base + k * r.stride < 2 ^ 64
      · rw [if_pos ⟨hpast, by omega, by omega⟩, if_pos hpast, Nat.add_sub_cancel_left]
      · rw [if_neg fun h => hpast h.1, if_neg hpast]
        refine getElem?_rowsCopied_of_beside m base hvalid hin (Nat.le_of_succ_le hrow) fun row hrow => ?_
        have hplace := rowPlace_add_le hvalid hin hrow
        omega

end Rows

/-! ### The loop -/

variable {W : Type} {c : Ctx (VirtioGpu W) Ram} {r : GpuResource} {rect : DisplayRect} {id : UInt32} {base : Nat}

def putResource (c : Ctx (VirtioGpu W) Ram) (id : UInt32) (r : GpuResource) : Ctx (VirtioGpu W) Ram :=
  { c with dev := { c.dev with resources := c.dev.resources.replace id r } }

theorem putResource_self (h : c.dev.resources.lookup id = some r) : putResource c id r = c := by
  rw [putResource, replace_self h]

theorem putResource_putResource (r' : GpuResource) : putResource (putResource c id r) id r' = putResource c id r' := by
  unfold putResource
  rw [replace_replace]

section Row

variable {remaining row : Nat} (hvalid : r.Valid) (hrow : row < rect.height.toNat)
  (hlookup : c.dev.resources.lookup id = some { r with data := rowsCopied c.mem r rect base row })
include hvalid hrow

theorem saturatingUsize_row : saturatingUsize (row * r.stride) = row * r.stride := by
  have hheight := rect.height.toNat_lt
  obtain ⟨hstart, -⟩ := rowStart_lt hvalid rect.x rect.y (by omega : row < 2 ^ 32)
  have hle : row * r.stride ≤ (rect.y.toNat + row) * r.stride := Nat.mul_le_mul_right _ (Nat.le_add_left _ _)
  unfold saturatingUsize
  omega

include hlookup

theorem transferRows_of_past (hpast : ¬base + row * r.stride < 2 ^ 64) (rowBuf : Bytes) :
    transferRows id rect base (remaining + 1) row rowBuf c = .ok () c := by
  unfold transferRows
  rw [get_bind, hlookup]
  dsimp only
  rw [saturatingUsize_row hvalid hrow, checkedUsize, if_neg hpast]
  rfl

theorem transferRows_of_copied (hin : r.Inside rect) (hwidth : 0 < rect.width.toNat)
    (hpast : base + row * r.stride < 2 ^ 64) :
    transferRows id rect base (remaining + 1) row (rowBuffer c.mem r rect base row) c =
      transferRows id rect base remaining (row + 1) (rowBuffer c.mem r rect base (row + 1))
        (putResource c id { r with data := rowsCopied c.mem r rect base (row + 1) }) := by
  have hheight := rect.height.toNat_lt
  have hfits := rowPlace_add_le_length hvalid hin hrow
  have hlen := length_rowsCopied c.mem base hvalid hin (Nat.le_of_lt hrow)
  have hbuf := length_rowBuffer c.mem r rect base (row + 1)
  obtain ⟨hstart, hdst⟩ := rowStart_lt hvalid rect.x rect.y (by omega : row < 2 ^ 32)
  have hread : readBackingRange (base + row * r.stride) r.backing 0 0 (rowBuffer c.mem r rect base row) c =
      .ok (rowBuffer c.mem r rect base (row + 1)) c := by
    rw [readBackingRange_eq hpast r.backing (Nat.zero_le _), length_rowBuffer]
    rfl
  have hcopyLen : min (rowLen rect) (r.data.length - rowPlace r rect row) = rowLen rect := by omega
  have hnonempty : rowLen rect ≠ 0 := by
    unfold rowLen bytesPerPixel
    omega
  have hcopy : copySlice (rowsCopied c.mem r rect base row) (rowPlace r rect row)
      (rowPlace r rect row + rowLen rect) (rowBuffer c.mem r rect base (row + 1)) =
        .ok (rowsCopied c.mem r rect base (row + 1)) := by
    rw [rowsCopied, if_pos hpast]
    exact if_pos ⟨Nat.le_add_right _ _, by omega, by omega⟩
  have hstart : usize ((rect.y.toNat + row) * r.stride) = .ok _ := if_pos hstart
  have hdst : usize ((rect.y.toNat + row) * r.stride + rect.x.toNat * bytesPerPixel) =
    .ok (rowPlace r rect row) := if_pos hdst
  have hput : (Serve.onDev (modify fun s => { s with
      resources := s.resources.replace id { r with data := rowsCopied c.mem r rect base (row + 1) } }) :
        Serve (VirtioGpu W) Ram PUnit) c =
      .ok ⟨⟩ (putResource c id { r with data := rowsCopied c.mem r rect base (row + 1) }) :=
    Serve.onDev_eq_ok.mpr ⟨_, modify_eq_ok.mpr rfl, rfl⟩
  conv => lhs; unfold transferRows
  rw [get_bind, hlookup]
  dsimp only
  rw [saturatingUsize_row hvalid hrow, checkedUsize, if_pos hpast]
  dsimp only
  rw [bind_of_ok hread, bind_of_ok (lift_eq_ok.mpr ⟨hstart, rfl⟩), bind_of_ok (lift_eq_ok.mpr ⟨hdst, rfl⟩), hlen, hbuf,
    hcopyLen, if_neg hnonempty, List.take_of_length_le (Nat.le_of_eq hbuf), bind_of_ok (lift_eq_ok.mpr ⟨hcopy, rfl⟩),
    bind_of_ok hput]

end Row

/-- The rows from `row` on, where the rows before have been copied. -/
theorem transferRows_eq (hvalid : r.Valid) (hin : r.Inside rect) (hwidth : 0 < rect.width.toNat) {remaining : Nat}
    (hrows : row + remaining = rect.height.toNat)
    (hlookup : c.dev.resources.lookup id = some { r with data := rowsCopied c.mem r rect base row }) :
    transferRows id rect base remaining row (rowBuffer c.mem r rect base row) c =
      .ok () (putResource c id { r with data := rowsCopied c.mem r rect base rect.height.toNat }) := by
  induction remaining generalizing row c with
  | zero =>
    obtain rfl : row = rect.height.toNat := hrows
    rw [putResource_self hlookup]
    rfl
  | succ remaining ih =>
    have hrow : row < rect.height.toNat := by omega
    by_cases hpast : base + row * r.stride < 2 ^ 64
    · rw [transferRows_of_copied hvalid hrow hlookup hin hwidth hpast]
      have hrest := @ih (putResource c id { r with data := rowsCopied c.mem r rect base (row + 1) }) (row + 1)
        (by omega) (lookup_replace_self hlookup)
      rwa [putResource_putResource] at hrest
    · rw [transferRows_of_past hvalid hrow hlookup hpast, ← hrows,
        rowsCopied_of_past c.mem base (Nat.le_of_not_lt hpast), putResource_self hlookup]

/-! ### The command -/

theorem contains_iff (hvalid : r.Valid) :
    r.contains rect = true ↔ 0 < rect.width.toNat ∧ 0 < rect.height.toNat ∧ r.Inside rect := by
  have hwidth := hvalid.width_le
  have hheight := hvalid.height_le
  simp only [GpuResource.contains, Bool.and_eq_true, bne_iff_ne, decide_eq_true_eq, UInt32.lt_iff_toNat_lt, ne_eq,
    ← UInt32.toNat_inj, UInt32.toNat_zero]
  unfold GpuResource.saturatingAdd GpuResource.Inside
  omega

theorem backingLen_eq (r : GpuResource) : r.backingLen = min (backingTotal r.backing) (2 ^ 64 - 1) := by
  have hfold (entries : List VirtioGpuMemEntry) (acc : Nat) :
      entries.foldl (fun acc e => saturatingUsize (acc + e.length.toNat)) (saturatingUsize acc) =
        saturatingUsize (acc + backingTotal entries) := by
    induction entries generalizing acc with
    | nil => rfl
    | cons entry rest ih =>
      have hstep : saturatingUsize (saturatingUsize acc + entry.length.toNat) =
          saturatingUsize (acc + entry.length.toNat) := by
        unfold saturatingUsize
        omega
      have htotal : backingTotal (entry :: rest) = entry.length.toNat + backingTotal rest := rfl
      rw [List.foldl_cons, hstep, ih, htotal, Nat.add_assoc]
  have hall := hfold r.backing 0
  rw [Nat.zero_add] at hall
  exact hall

def sourceStart (r : GpuResource) (req : VirtioGpuTransferToHost) : Nat :=
  req.offset.toNat + req.rect.y.toNat * r.stride + req.rect.x.toNat * bytesPerPixel

/-- A transfer is accepted if its rectangle is a part of the resource and starts in the backing pages, or at their
end. -/
theorem accepts_iff (hvalid : r.Valid) :
    Accepts r req base ↔ (0 < req.rect.width.toNat ∧ 0 < req.rect.height.toNat ∧ r.Inside req.rect) ∧
      base = sourceStart r req ∧ sourceStart r req < 2 ^ 64 ∧ sourceStart r req ≤ backingTotal r.backing := by
  obtain ⟨hrow, _⟩ := rowStart_lt hvalid req.rect.x req.rect.y (by decide : 0 < 2 ^ 32)
  have hsaturating : saturatingUsize (req.rect.y.toNat * r.stride) = req.rect.y.toNat * r.stride := by
    unfold saturatingUsize
    rw [Nat.add_zero] at hrow
    omega
  have hbase : transferBase r req = some base ↔ base = sourceStart r req ∧ sourceStart r req < 2 ^ 64 := by
    unfold transferBase sourceStart checkedUsize
    rw [hsaturating, Option.bind_eq_bind, Option.bind_eq_some_iff]
    simp only [Option.ite_none_right_eq_some, Option.some.injEq]
    constructor
    · rintro ⟨_, ⟨_, rfl⟩, hlt, rfl⟩
      exact ⟨rfl, hlt⟩
    · rintro ⟨rfl, hlt⟩
      exact ⟨_, ⟨by omega, rfl⟩, hlt, rfl⟩
  unfold Accepts
  rw [contains_iff hvalid, hbase, backingLen_eq]
  refine and_congr_right fun _ => ⟨?_, ?_⟩
  · rintro ⟨⟨rfl, hlt⟩, hle⟩
    exact ⟨rfl, hlt, by omega⟩
  · rintro ⟨rfl, hlt, hle⟩
    exact ⟨⟨rfl, hlt⟩, by omega⟩

theorem transferToHost2d_eq {request : Bytes} (hreq : fromBytes request = some req)
    (hlive : c.dev.resources.lookup req.resourceId = some r) (hvalid : r.Valid) (haccepts : Accepts r req base) :
    transferToHost2d request c = .ok okNodata
      (putResource c req.resourceId { r with data := rowsCopied c.mem r req.rect base req.rect.height.toNat }) := by
  obtain ⟨hwidth, _, hin⟩ := (contains_iff hvalid).mp haccepts.1
  have hzeros : zeros (req.rect.width.toNat * bytesPerPixel) = .ok (rowBuffer c.mem r req.rect base 0) := by
    refine if_pos ?_
    have hlt := req.rect.width.toNat_lt
    simp only [bytesPerPixel, isizeMax]
    omega
  have hrows : transferRows req.resourceId req.rect base req.rect.height.toNat 0 (rowBuffer c.mem r req.rect base 0) c = _ :=
    transferRows_eq hvalid hin hwidth (Nat.zero_add _) hlive
  rw [transferToHost2d_of_accepts hreq hlive haccepts, bind_of_ok (lift_eq_ok.mpr ⟨hzeros, rfl⟩), bind_of_ok hrows]
  rfl

/-! ### Pages in one region of RAM -/

def page (region : MemoryRegion) (entry : VirtioGpuMemEntry) : Bytes :=
  Base.window region.bytes (entry.addr.toNat - region.memOffset.toNat) entry.length.toNat

def pages (region : MemoryRegion) (entries : List VirtioGpuMemEntry) : Bytes := entries.flatMap (page region)

section Pages

variable {region : MemoryRegion} {entries : List VirtioGpuMemEntry}

theorem length_page {entry : VirtioGpuMemEntry} (h : region.Contains entry.addr entry.length.toNat) :
    (page region entry).length = entry.length.toNat := by
  obtain ⟨hlo, hhi⟩ := h
  exact length_window (by omega)

theorem length_pages (hheld : ∀ entry ∈ entries, region.Contains entry.addr entry.length.toNat) :
    (pages region entries).length = backingTotal entries := by
  unfold pages backingTotal
  rw [List.length_flatMap]
  exact congrArg List.sum (List.map_congr_left fun entry hentry => length_page (hheld entry hentry))

theorem load_page {entry : VirtioGpuMemEntry} (hend : region.memOffset.toNat + region.bytes.length ≤ 2 ^ 64)
    (h : region.Contains entry.addr entry.length.toNat) {start n : Nat} (hlt : start < entry.length.toNat)
    (hn : n ≤ entry.length.toNat - start) : entry.addr.toNat + start < 2 ^ 64 ∧
      (⟨[region]⟩ : Ram).load (UInt64.ofNat (entry.addr.toNat + start)) n = Base.window (page region entry) start n := by
  obtain ⟨hlo, hhi⟩ := h
  have haddr : entry.addr.toNat + start < 2 ^ 64 := by omega
  have htoNat : (UInt64.ofNat (entry.addr.toNat + start)).toNat = entry.addr.toNat + start :=
    UInt64.toNat_ofNat_of_lt' haddr
  have hsub : region.Contains (UInt64.ofNat (entry.addr.toNat + start)) n := by
    unfold MemoryRegion.Contains
    omega
  refine ⟨haddr, ?_⟩
  unfold Ram.load
  rw [specLoad_cons_of_contains hsub, htoNat]
  apply List.ext_getElem?
  intro i
  rw [getElem?_window, getElem?_window, page, getElem?_window]
  split_ifs with hi hin
  · congr 1
    omega
  · omega
  · rfl

theorem backingBytes_eq_window (hend : region.memOffset.toNat + region.bytes.length ≤ 2 ^ 64)
    (hheld : ∀ entry ∈ entries, region.Contains entry.addr entry.length.toNat) (start room : Nat) :
    backingBytes ⟨[region]⟩ entries start room = Base.window (pages region entries) start room := by
  induction entries generalizing start room with
  | nil => simp [backingBytes, pages, Base.window]
  | cons entry rest ih =>
    have hentry := hheld entry List.mem_cons_self
    have hlen := length_page hentry
    have ih := ih fun e he => hheld e (List.mem_cons_of_mem _ he)
    have hpages : pages region (entry :: rest) = page region entry ++ pages region rest := List.flatMap_cons
    rw [hpages]
    unfold backingBytes Base.window
    split_ifs with hroom hin haddr
    · rw [hroom, List.take_zero]
    · obtain ⟨_, hload⟩ := load_page hend hentry hin (Nat.min_le_left _ room)
      dsimp only
      rw [hload, ih, List.drop_append_of_le_length (by omega), List.take_append, List.length_drop, hlen]
      unfold Base.window
      rw [List.drop_zero]
      congr 1
      · rw [Nat.min_comm, ← List.take_take]
        exact congrArg _ (List.take_of_length_le (by rw [List.length_drop]; omega))
      · congr 1
        omega
    · exact absurd (load_page hend hentry hin (Nat.le_refl _)).1 haddr
    · rw [ih, List.drop_append, List.drop_eq_nil_of_le (by omega), List.nil_append, hlen]
      rfl

end Pages

/-! ### The pixels that are copied -/

/-- Where byte `j` of a row of the rectangle is taken from, counted from the start of the backing pages. -/
def sourceAt (r : GpuResource) (req : VirtioGpuTransferToHost) (row j : Nat) : Nat :=
  req.offset.toNat + (req.rect.y.toNat + row) * r.stride + 4 * req.rect.x.toNat + j

def pixelAt (r : GpuResource) (rect : DisplayRect) (row j : Nat) : Nat :=
  (rect.y.toNat + row) * r.stride + 4 * rect.x.toNat + j

theorem sourceAt_eq (r : GpuResource) (req : VirtioGpuTransferToHost) (row j : Nat) :
    sourceAt r req row j = sourceStart r req + row * r.stride + j := by
  unfold sourceAt sourceStart bytesPerPixel
  rw [Nat.add_mul]
  omega

theorem pixelAt_eq (r : GpuResource) (rect : DisplayRect) (row j : Nat) :
    pixelAt r rect row j = rowPlace r rect row + j := by
  unfold pixelAt rowPlace bytesPerPixel
  omega

theorem rowLen_eq (rect : DisplayRect) : rowLen rect = 4 * rect.width.toNat := Nat.mul_comm _ _

/-- The resource has the bytes of the pages in the rectangle, as far as the pages reach, and is otherwise as it was. -/
structure PixelsCopied (source : Bytes) (r r' : GpuResource) (req : VirtioGpuTransferToHost) : Prop where
  shape : r' = { r with data := r'.data }
  length_eq : r'.data.length = r.data.length
  copied : ∀ row < req.rect.height.toNat, ∀ j < 4 * req.rect.width.toNat, sourceAt r req row j < source.length →
    r'.data[pixelAt r req.rect row j]? = source[sourceAt r req row j]?
  kept : ∀ i, (∀ row < req.rect.height.toNat, ∀ j < 4 * req.rect.width.toNat, i ≠ pixelAt r req.rect row j) →
    r'.data[i]? = r.data[i]?

theorem pixelsCopied {region : MemoryRegion} (hvalid : r.Valid)
    (hin : r.Inside req.rect) (hend : region.memOffset.toNat + region.bytes.length ≤ 2 ^ 64)
    (hheld : ∀ entry ∈ r.backing, region.Contains entry.addr entry.length.toNat)
    (hsmall : (pages region r.backing).length ≤ 2 ^ 64) : PixelsCopied (pages region r.backing) r
      { r with data := rowsCopied ⟨[region]⟩ r req.rect (sourceStart r req) req.rect.height.toNat } req where
  shape := rfl
  length_eq := length_rowsCopied _ _ hvalid hin (Nat.le_refl _)
  copied row hrow j hj hsource := by
    rw [← rowLen_eq] at hj
    rw [sourceAt_eq] at hsource ⊢
    rw [pixelAt_eq, getElem?_rowsCopied _ _ hvalid hin (Nat.le_refl _) hrow hj, if_pos (by omega), lastByte,
      backingBytes_eq_window hend hheld, getElem?_window, if_pos hj, List.getElem?_eq_getElem hsource, Option.getD_some]
  kept i hbeside := by
    refine getElem?_rowsCopied_of_beside _ _ hvalid hin (Nat.le_refl _) fun row hrow hmem => ?_
    refine hbeside row hrow (i - rowPlace r req.rect row) ?_ ?_
    · rw [← rowLen_eq]
      omega
    · rw [pixelAt_eq]
      omega

/-! ### The pages that can be attached -/

def FewPages (s : VirtioGpu W) : Prop :=
  ∀ id r, s.resources.lookup id = some r → r.backing.length ≤ maxRequestBytes

theorem FewPages.replace {s : VirtioGpu W} (h : s.FewPages) (id : UInt32) {r : GpuResource}
    (hr : r.backing.length ≤ maxRequestBytes) : FewPages { s with resources := s.resources.replace id r } := by
  intro id' r' hlookup
  rcases lookup_replace_cases hlookup with ⟨_, rfl⟩ | hold
  · exact hr
  · exact h id' r' hold

theorem backing_new {format width height : UInt32} {r : GpuResource} (h : GpuResource.new format width height = some r) :
    r.backing = [] := by
  unfold GpuResource.new at h
  split_ifs at h
  obtain ⟨stride, _, h⟩ := Option.bind_eq_some_iff.mp h
  obtain ⟨len, _, h⟩ := Option.bind_eq_some_iff.mp h
  split_ifs at h
  cases h
  rfl

theorem length_memEntries_le {bytes : Bytes} {req : VirtioGpuBackingAttach}
    (h : VirtioGpuBackingAttach.fromBytes bytes = some req) : req.memEntries.length ≤ bytes.length := by
  unfold VirtioGpuBackingAttach.fromBytes at h
  split_ifs at h
  cases h
  rw [List.length_map, List.length_range, List.length_drop]
  omega

variable {s : VirtioGpu W} {bytes : Bytes}

section

variable (h : s.FewPages)
include h

theorem fewPages_resourceCreate2d : (s.resourceCreate2d bytes).2.FewPages := by
  unfold resourceCreate2d
  split
  · exact h
  split_ifs with htaken hfull
  · exact h
  · exact h
  split
  · exact h
  rename_i req _ _ resource hnew
  intro id r hlookup
  rcases lookup_insert_cases hlookup with ⟨_, rfl⟩ | hold
  · rw [backing_new hnew]
    exact Nat.zero_le _
  · exact h id r hold

theorem fewPages_resourceUnref : (s.resourceUnref bytes).2.FewPages := by
  unfold resourceUnref
  split
  · exact h
  · exact fun id r hlookup => h id r (lookup_of_lookup_erase hlookup)

theorem fewPages_setScanout : (s.setScanout bytes).2.FewPages := by
  unfold setScanout
  split
  · exact h
  split_ifs
  all_goals exact h

theorem fewPages_resourceAttachBacking (hbytes : bytes.length ≤ maxRequestBytes) :
    (s.resourceAttachBacking bytes).2.FewPages := by
  unfold resourceAttachBacking
  split
  · exact h
  split
  · exact h
  · rename_i req hreq _ _ _
    exact h.replace _ ((length_memEntries_le hreq).trans hbytes)

theorem fewPages_resourceDetachBacking : (s.resourceDetachBacking bytes).2.FewPages := by
  unfold resourceDetachBacking
  split
  · exact h
  split
  · exact h
  · exact h.replace _ (Nat.zero_le _)

end

theorem fewPages_tablesAfter (cmd : GpuCommand) {bytes : Bytes} (hbytes : bytes.length ≤ maxRequestBytes)
    (s : VirtioGpu W) (h : s.FewPages) : (tablesAfter cmd bytes s).FewPages := by
  cases cmd with
  | resourceCreate2d => exact fewPages_resourceCreate2d h
  | resourceUnref => exact fewPages_resourceUnref h
  | setScanout => exact fewPages_setScanout h
  | resourceAttachBacking => exact fewPages_resourceAttachBacking h hbytes
  | resourceDetachBacking => exact fewPages_resourceDetachBacking h
  | _ => exact h

theorem fewPages_of_reachable [DisplayBackend W] {s : VirtioGpu W} (h : (gpuSystem W).Reachable s) : s.FewPages := by
  have hnone {s : VirtioGpu W} (hempty : s.resources = ∅) : s.FewPages := by
    intro id r hlookup
    rw [hempty] at hlookup
    cases hlookup
  refine h.invariant ?_ fun s e s' hs hstep => ?_
  · rintro s ⟨window, rfl⟩
    exact hnone rfl
  cases e with
  | control head queue mem =>
    rw [show s' = _ from hstep]
    refine keepsDev_serveControl (fun cmd bytes hbytes => ?_) head ⟨s, queue, mem, []⟩ hs
    refine keepsDev_command cmd bytes (fewPages_tablesAfter cmd hbytes) (fun _ _ hs => hs) ?_
    intro s0 s id r data h0 hlookup _ hs
    exact hs.replace id (h0 id r hlookup)
  | cursor head queue mem =>
    rw [show s' = _ from hstep, ((uses_serveCursor head).effect ⟨s, queue, mem, []⟩).dev (by decide)]
    exact hs
  | writeConfig offset data =>
    obtain ⟨config, _, heq⟩ := Exec.bind_eq_ok.mp hstep
    cases heq
    exact hs
  | passGuestMemory =>
    rw [show s' = _ from hstep]
    exact hs
  | reset =>
    rw [show s' = _ from hstep]
    exact hnone rfl

theorem backingTotal_le (entries : List VirtioGpuMemEntry) : backingTotal entries ≤ entries.length * 2 ^ 32 := by
  induction entries with
  | nil => exact Nat.zero_le _
  | cons entry rest ih =>
    have htotal : backingTotal (entry :: rest) = entry.length.toNat + backingTotal rest := rfl
    have hlt := entry.length.toNat_lt
    rw [htotal, List.length_cons]
    omega

/-- **Transfers.** For a live resource whose backing pages, whatever their number and lengths, lie in the one region
of RAM, a transfer is answered with OK exactly when its rectangle is a part of the resource and starts in the pages or
at their end, and with an invalid argument and no change otherwise. With OK, each byte of the rectangle that the pages
reach is the byte at its place in the pages, and nothing beside the rectangle has changed. -/
theorem transfer_copies_pixels [DisplayBackend W] (hreach : (gpuSystem W).Reachable c.dev) {region : MemoryRegion}
    (hram : c.mem = ⟨[region]⟩) (hend : region.memOffset.toNat + region.bytes.length ≤ 2 ^ 64) {request : Bytes}
    {req : VirtioGpuTransferToHost} (hreq : VirtioGpuTransferToHost.fromBytes request = some req)
    (hlive : c.dev.resources.lookup req.resourceId = some r)
    (hheld : ∀ entry ∈ r.backing, region.Contains entry.addr entry.length.toNat) :
    ∃ response c', command .transferToHost2d request c = .ok response c' ∧
      (response = okNodata ∨ response = invalidArgument) ∧
      (response = okNodata ↔ (0 < req.rect.width.toNat ∧ 0 < req.rect.height.toNat ∧ r.Inside req.rect) ∧
        sourceAt r req 0 0 < 2 ^ 64 ∧ sourceAt r req 0 0 ≤ (pages region r.backing).length) ∧
      (response = invalidArgument → c' = c) ∧ (response = okNodata → ∃ r', c' = putResource c req.resourceId r' ∧
        PixelsCopied (pages region r.backing) r r' req) := by
  have hvalid := (invariant_of_reachable hreach).valid _ r hlive
  have hsmall : backingTotal r.backing ≤ 2 ^ 64 := by
    have hmax : maxRequestBytes * 2 ^ 32 ≤ 2 ^ 64 := by decide
    exact ((backingTotal_le r.backing).trans (Nat.mul_le_mul_right _ (fewPages_of_reachable hreach _ r hlive))).trans hmax
  have hlength := length_pages hheld
  have hstart : sourceAt r req 0 0 = sourceStart r req := by simp [sourceAt_eq]
  rw [hlength, hstart]
  by_cases haccepts : ∃ base, Accepts r req base
  · obtain ⟨base, haccepts⟩ := haccepts
    obtain ⟨hinside, rfl, hfits⟩ := (accepts_iff hvalid).mp haccepts
    refine ⟨okNodata, _, transferToHost2d_eq hreq hlive hvalid haccepts, Or.inl rfl, ?_, ?_, fun _ => ⟨_, rfl, ?_⟩⟩
    · exact iff_of_true rfl ⟨hinside, hfits⟩
    · intro hne
      cases hne
    · rw [hram]
      exact pixelsCopied hvalid hinside.2.2 hend hheld (hlength.trans_le hsmall)
  · have hrefused := not_exists.mp haccepts
    refine ⟨invalidArgument, c, transferToHost2d_of_refused hreq hlive hrefused, Or.inr rfl, ?_, fun _ => rfl, ?_⟩
    · refine iff_of_false (fun hne => ?_) fun h => hrefused _ ((accepts_iff hvalid).mpr ⟨h.1, rfl, h.2⟩)
      cases hne
    · intro hne
      cases hne

end VirtioGpu

/-- A request to back resource 7 with one page of eight bytes at address zero. -/
def attachRequest : Bytes :=
  [6, 1, 0, 0] ++ List.replicate 20 0 ++ [7, 0, 0, 0, 1, 0, 0, 0] ++ List.replicate 8 0 ++ [8, 0, 0, 0, 0, 0, 0, 0]

/-- A device whose resource 7, of two columns and three rows, has that page. -/
def backedOne : VirtioGpu (FerrumSDLContext SdlCanvas.blank) :=
  ((VirtioGpu.serveControl 0).finalState
    ⟨createdAttached, controlQueue, controlMemory attachRequest (by decide), []⟩).dev

def backedResource : GpuResource := ⟨2, 3, [⟨0, 8⟩], List.replicate 24 0, 8⟩

def pageRegion : MemoryRegion := ⟨false, [1, 2, 3, 4, 5, 6, 7, 8], 0, by decide⟩

def transferRequest : Bytes :=
  [5, 1, 0, 0] ++ List.replicate 28 0 ++ [2, 0, 0, 0, 3, 0, 0, 0] ++ List.replicate 8 0 ++ [7, 0, 0, 0, 0, 0, 0, 0]

def transferWaiting (dev : VirtioGpu (FerrumSDLContext SdlCanvas.blank)) :
    Ctx (VirtioGpu (FerrumSDLContext SdlCanvas.blank)) Ram :=
  ⟨dev, controlQueue, ⟨[pageRegion]⟩, []⟩

theorem backedOne_reachable : (gpuSystem _).Reachable backedOne :=
  createdAttached_reachable.next (e := .control 0 controlQueue (controlMemory attachRequest (by decide))) rfl

theorem backedOne_lookup : backedOne.resources.lookup 7 = some backedResource := by
  have hfields : (backedOne.resources.lookup 7).map (fun r => (r.width, r.height, r.backing, r.data, r.stride)) =
      some (2, 3, [⟨0, 8⟩], List.replicate 24 0, 8) := by
    decide +kernel
  obtain ⟨r, hr, hfields⟩ := Option.map_eq_some_iff.mp hfields
  rw [hr]
  cases r
  cases hfields
  rfl

theorem transferRequest_fields : fromBytes transferRequest = some ⟨⟨0, 0, 2, 3⟩, 0, 7⟩ := by
  decide

theorem pageRegion_held : ∀ entry ∈ backedResource.backing, pageRegion.Contains entry.addr entry.length.toNat := by
  intro entry hentry
  rw [List.mem_singleton.mp hentry]
  decide

/-- The first row of the resource is filled from the page. -/
theorem first_row_is_copied :
    ∃ response c', VirtioGpu.command .transferToHost2d transferRequest (transferWaiting backedOne) = .ok response c' ∧
      response = VirtioGpu.okNodata ∧ ∃ r', c' = VirtioGpu.putResource (transferWaiting backedOne) 7 r' ∧
        VirtioGpu.PixelsCopied [1, 2, 3, 4, 5, 6, 7, 8] backedResource r' ⟨⟨0, 0, 2, 3⟩, 0, 7⟩ := by
  have hreach := backedOne_reachable
  have hlookup := backedOne_lookup
  generalize backedOne = dev at hreach hlookup ⊢
  have hram : (transferWaiting dev).mem = ⟨[pageRegion]⟩ := rfl
  obtain ⟨response, c', hcommand, _, hok, _, hcopied⟩ := VirtioGpu.transfer_copies_pixels hreach hram (by decide)
    transferRequest_fields hlookup pageRegion_held
  have hresponse : response = VirtioGpu.okNodata :=
    hok.mpr ⟨⟨by decide, by decide, by decide, by decide⟩, by decide, by decide⟩
  exact ⟨response, c', hcommand, hresponse, hcopied hresponse⟩

/-! ### The pixels behind the last page -/

namespace VirtioGpu

variable {W : Type} {c : Ctx (VirtioGpu W) Ram} {r : GpuResource}

/-- Each byte of the rectangle that the backing pages do not reach is zero or as it was. -/
def NoForeignPixels (c c' : Ctx (VirtioGpu W) Ram) (req : VirtioGpuTransferToHost) : Prop :=
  ∀ r r', c.dev.resources.lookup req.resourceId = some r → c'.dev.resources.lookup req.resourceId = some r' →
    ∀ row < req.rect.height.toNat, ∀ j < 4 * req.rect.width.toNat, backingTotal r.backing ≤ sourceAt r req row j →
      r'.data[pixelAt r req.rect row j]? = some 0 ∨
        r'.data[pixelAt r req.rect row j]? = r.data[pixelAt r req.rect row j]?

theorem lastByte_succ_of_past {m : Ram} {rect : DisplayRect} {base row j : Nat}
    (h : backingTotal r.backing ≤ base + row * r.stride + j) :
    lastByte m r rect base j (row + 1) = lastByte m r rect base j row := by
  have hle := length_backingBytes_le_total m r.backing (base + row * r.stride) (rowLen rect)
  rw [lastByte, List.getElem?_eq_none (by omega), Option.getD_none]

/-- **Pixels behind the last page.** They are zero or as they were exactly when what the row buffer still holds for
their column, from the last row that read a byte for it, is. -/
theorem no_foreign_pixels_iff {c' : Ctx (VirtioGpu W) Ram} {request : Bytes} {req : VirtioGpuTransferToHost}
    (hreq : VirtioGpuTransferToHost.fromBytes request = some req)
    (hlive : c.dev.resources.lookup req.resourceId = some r) (hvalid : r.Valid)
    (hok : transferToHost2d request c = .ok okNodata c') : NoForeignPixels c c' req ↔
      ∀ row < req.rect.height.toNat, ∀ j < 4 * req.rect.width.toNat, backingTotal r.backing ≤ sourceAt r req row j →
        sourceAt r req row 0 < 2 ^ 64 → lastByte c.mem r req.rect (sourceAt r req 0 0) j row = 0 ∨
          r.data[pixelAt r req.rect row j]? = some (lastByte c.mem r req.rect (sourceAt r req 0 0) j row) := by
  have hstart : sourceAt r req 0 0 = sourceStart r req := by simp [sourceAt_eq]
  obtain ⟨base, haccepts⟩ : ∃ base, Accepts r req base := by
    by_contra hrefused
    rw [transferToHost2d_of_refused hreq hlive (not_exists.mp hrefused)] at hok
    injection hok with hresponse
    cases hresponse
  obtain ⟨⟨_, _, hin⟩, rfl, _⟩ := (accepts_iff hvalid).mp haccepts
  rw [transferToHost2d_eq hreq hlive hvalid haccepts] at hok
  cases hok
  have hlookup := lookup_replace_self (b := { r with
    data := rowsCopied c.mem r req.rect (sourceStart r req) req.rect.height.toNat }) hlive
  -- The byte is what the row buffer holds, unless its row is past the address space.
  have hbyte (row : Nat) (hrow : row < req.rect.height.toNat) (j : Nat) (hj : j < 4 * req.rect.width.toNat)
      (hpast : backingTotal r.backing ≤ sourceAt r req row j) :
      (rowsCopied c.mem r req.rect (sourceStart r req) req.rect.height.toNat)[pixelAt r req.rect row j]? =
        if sourceAt r req row 0 < 2 ^ 64 then some (lastByte c.mem r req.rect (sourceStart r req) j row)
        else r.data[pixelAt r req.rect row j]? := by
    rw [sourceAt_eq] at hpast ⊢
    rw [← rowLen_eq] at hj
    rw [pixelAt_eq, getElem?_rowsCopied _ _ hvalid hin (Nat.le_refl _) hrow hj, lastByte_succ_of_past hpast, Nat.add_zero]
  rw [hstart]
  constructor
  · intro h row hrow j hj hpast hfits
    have hcases := h r _ hlive hlookup row hrow j hj hpast
    rw [hbyte row hrow j hj hpast, if_pos hfits, Option.some_inj] at hcases
    exact hcases.imp_right Eq.symm
  · intro h r0 r' hr0 hr' row hrow j hj hpast
    obtain rfl : r = r0 := Option.some_inj.mp (hlive.symm.trans hr0)
    obtain rfl := Option.some_inj.mp (hlookup.symm.trans hr')
    rw [hbyte row hrow j hj hpast]
    by_cases hfits : sourceAt r req row 0 < 2 ^ 64
    · rw [if_pos hfits, Option.some_inj]
      exact (h row hrow j hj hpast hfits).imp_right Eq.symm
    · rw [if_neg hfits]
      exact Or.inr rfl

end VirtioGpu

def firstRowRequest : Bytes :=
  [5, 1, 0, 0] ++ List.replicate 28 0 ++ [2, 0, 0, 0, 1, 0, 0, 0] ++ List.replicate 8 0 ++ [7, 0, 0, 0, 0, 0, 0, 0]

theorem backedResource_valid : backedResource.Valid := by
  constructor <;> decide

/-- The page reaches all of the first row. -/
theorem first_row_is_reached :
    ∃ c', VirtioGpu.transferToHost2d firstRowRequest (transferWaiting backedOne) = .ok VirtioGpu.okNodata c' ∧
      VirtioGpu.NoForeignPixels (transferWaiting backedOne) c' ⟨⟨0, 0, 2, 1⟩, 0, 7⟩ := by
  have hlookup := backedOne_lookup
  generalize backedOne = dev at hlookup ⊢
  have hreq : fromBytes firstRowRequest = some ⟨⟨0, 0, 2, 1⟩, 0, 7⟩ := by decide
  have haccepts : VirtioGpu.Accepts backedResource ⟨⟨0, 0, 2, 1⟩, 0, 7⟩ 0 := ⟨by decide, by decide, by decide⟩
  have hok := VirtioGpu.transferToHost2d_eq (c := transferWaiting dev) hreq hlookup backedResource_valid haccepts
  refine ⟨_, hok, (VirtioGpu.no_foreign_pixels_iff hreq hlookup backedResource_valid hok).mpr ?_⟩
  intro row hrow j hj hpast
  have hreached : ∀ row < 1, ∀ j < 8, VirtioGpu.sourceAt backedResource ⟨⟨0, 0, 2, 1⟩, 0, 7⟩ row j < 8 := by decide
  exact absurd hpast (Nat.not_le.mpr (hreached row hrow j hj))

/-- The page ends with the first row, and the second row is given the bytes of the first. -/
theorem second_row_has_first_rows_bytes : (gpuSystem _).Reachable backedOne ∧
      ∃ c', VirtioGpu.transferToHost2d transferRequest (transferWaiting backedOne) = .ok VirtioGpu.okNodata c' ∧
      (∃ r', c'.dev.resources.lookup 7 = some r' ∧ r'.data.take 16 = [1, 2, 3, 4, 5, 6, 7, 8, 1, 2, 3, 4, 5, 6, 7, 8]) ∧
      ¬VirtioGpu.NoForeignPixels (transferWaiting backedOne) c' ⟨⟨0, 0, 2, 3⟩, 0, 7⟩ := by
  refine ⟨backedOne_reachable, ?_⟩
  have hlookup := backedOne_lookup
  generalize backedOne = dev at hlookup ⊢
  have haccepts : VirtioGpu.Accepts backedResource ⟨⟨0, 0, 2, 3⟩, 0, 7⟩ 0 := ⟨by decide, by decide, by decide⟩
  have hok := VirtioGpu.transferToHost2d_eq (c := transferWaiting dev) transferRequest_fields hlookup backedResource_valid
    haccepts
  refine ⟨_, hok, ⟨_, lookup_replace_self hlookup, ?_⟩, fun h => ?_⟩
  · show (VirtioGpu.rowsCopied ⟨[pageRegion]⟩ backedResource ⟨0, 0, 2, 3⟩ 0 3).take 16 = _
    decide
  · have hstale := h _ _ hlookup (lookup_replace_self hlookup) 1 (by decide) 0 (by decide) (by decide)
    have hbyte : (VirtioGpu.rowsCopied ⟨[pageRegion]⟩ backedResource ⟨0, 0, 2, 3⟩ 0 3)[8]? = some 1 := by
      decide
    rcases hstale with hzero | hold
    · cases hbyte.symm.trans hzero
    · cases hbyte.symm.trans hold

end FerrumVM
