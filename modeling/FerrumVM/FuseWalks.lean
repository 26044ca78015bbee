import FerrumVM.FuseChain
import FerrumVM.HostDisk
import FerrumVM.SafeAccess

/-! How many descriptors the two walks over the chain of a file-system request visit. Neither counts them, so a
walk ends where a descriptor ends it and not before. -/

namespace FerrumVM

open Base Program

theorem Serve.getDescriptor_of_astray {D : Type} (link : Link) {c : Ctx D Ram} (h : ¬c.queue.DescSafe link.index) :
    ∃ t, (Serve.getDescriptor link : Serve D Ram VirtqDesc) c = .error (.panic .overflow) t := by
  refine ⟨{ c with log := c.log ++ [.fetch link] }, ?_⟩
  unfold Serve.getDescriptor
  rw [bind_of_ok (a := ⟨⟩) (modify_eq_ok.mpr rfl)]
  unfold act
  dsimp only
  rw [VirtioQueue.getDescriptor_of_astray h]
  rfl

theorem Serve.getDescriptor_of_safe {D : Type} (link : Link) {c : Ctx D Ram} (h : c.queue.DescSafe link.index) :
    (Serve.getDescriptor link : Serve D Ram VirtqDesc) c =
      .ok (c.queue.descAt c.mem link.index) (c.fetched link (c.queue.descAt c.mem link.index)) :=
  Serve.getDescriptor_eq_ok.mpr ⟨VirtioQueue.getDescriptor_eq_ok.mpr ⟨h, rfl⟩, rfl⟩

namespace FsVirtio

variable {H : HostOs} {c : Ctx (FsVirtio H) Ram} {head : UInt16} {reply : Bytes} {written : Nat}

/-! ### Gathering the request -/

/-- One of the first `n` descriptors from `i` on is writable or the last of its chain, or the chain leads to a
descriptor without an address before a further one is visited. -/
def CollectStops (q : VirtioQueue) (m : Ram) : (n : Nat) → (i : UInt16) → Prop
  | 0, i => ¬q.DescSafe i
  | n + 1, i =>
    ¬q.DescSafe i ∨ (q.descAt m i).isWrite = true ∨ (q.descAt m i).hasNext = false ∨
      CollectStops q m n (q.descAt m i).next

theorem collectStep_of_unsafe {desc : VirtqDesc} (acc : Bytes) (hwrite : desc.isWrite = false)
    (hnext : desc.hasNext = true) (hbad : ¬c.queue.DescSafe desc.next) :
    ∃ t, collectStep (desc, acc) c = .error (.panic .overflow) t := by
  obtain ⟨t, hfetch⟩ := Serve.getDescriptor_of_astray (.next desc) hbad
  refine ⟨t, ?_⟩
  show (if desc.isWrite = true then _ else _ : Serve (FsVirtio H) Ram _) c = _
  rw [hwrite, if_neg (by decide), bind_of_ok (Serve.readGuestMemoryAlloc_eq_ok.mpr ⟨rfl, rfl⟩), hnext,
    if_neg (by decide), bind_of_error hfetch]

theorem stopsWithin_collectStep {q : VirtioQueue} {m : Ram} (hqueue : c.queue = q) (hmem : c.mem = m) {n : Nat}
    {i : UInt16} (acc : Bytes) (hsafe : q.DescSafe i) :
    StopsWithin (fun fuel => loop collectStep fuel (q.descAt m i, acc)) n c ↔ CollectStops q m n i := by
  induction n generalizing i acc c with
  | zero => exact iff_of_false not_stopsWithin_zero (not_not.mpr hsafe)
  | succ n ih =>
    subst hqueue hmem
    unfold CollectStops
    generalize c.queue.descAt c.mem i = desc
    rw [or_iff_right (not_not.mpr hsafe)]
    cases hwrite : desc.isWrite with
    | true =>
      have hround : collectStep (desc, acc) c = .ok (.inr acc) c :=
        collectStep_eq_ok.mpr (Or.inl ⟨hwrite, rfl, rfl⟩)
      exact iff_of_true (stopsWithin_of_inr hround) (Or.inl rfl)
    | false =>
      rw [or_iff_right (by decide)]
      cases hnext : desc.hasNext with
      | false =>
        have hround : collectStep (desc, acc) c = .ok (.inr _) c :=
          collectStep_eq_ok.mpr (Or.inr ⟨hwrite, _, rfl, Or.inl ⟨hnext, rfl, rfl⟩⟩)
        exact iff_of_true (stopsWithin_of_inr hround) (Or.inl rfl)
      | true =>
        rw [or_iff_right (by decide)]
        by_cases hlink : c.queue.DescSafe desc.next
        · have hround : collectStep (desc, acc) c = .ok (.inl (c.queue.descAt c.mem desc.next, _)) _ :=
            collectStep_eq_ok.mpr (Or.inr ⟨hwrite, _, rfl, Or.inr ⟨hnext, _,
              VirtioQueue.getDescriptor_eq_ok.mpr ⟨hlink, rfl⟩, rfl, rfl⟩⟩)
          rw [stopsWithin_succ_iff hround]
          exact ih (c := c.fetched (.next desc) _) rfl rfl _ hlink
        · obtain ⟨t, hround⟩ := collectStep_of_unsafe acc hwrite hnext hlink
          refine iff_of_true (stopsWithin_of_panic hround) ?_
          cases n with
          | zero => exact hlink
          | succ n => exact Or.inl hlink

theorem stopsWithin_collectReadable (n : Nat) :
    StopsWithin (fun fuel => collectReadable fuel head) n c ↔ CollectStops c.queue c.mem n head := by
  by_cases hsafe : c.queue.DescSafe head
  · rw [show (fun fuel => collectReadable fuel head : Nat → Serve (FsVirtio H) Ram Bytes) =
      fun fuel => Serve.getDescriptor (.head head) >>= fun desc => loop collectStep fuel (desc, []) from rfl]
    rw [stopsWithin_bind_of_ok (Serve.getDescriptor_of_safe (.head head) hsafe)]
    exact stopsWithin_collectStep (c := c.fetched (.head head) _) rfl rfl [] hsafe
  · obtain ⟨t, hfetch⟩ := Serve.getDescriptor_of_astray (.head head) hsafe
    refine iff_of_true (stopsWithin_bind_of_panic hfetch) ?_
    cases n with
    | zero => exact hsafe
    | succ n => exact Or.inl hsafe

/-! ### Laying out the reply -/

/-- The number of bytes written once a descriptor has taken its part of the reply. -/
def writtenAt (reply : Bytes) (desc : VirtqDesc) (written : Nat) : Nat :=
  if desc.isWrite then written + min (reply.length - written) desc.len.toNat else written

/-- Guest memory once a descriptor has taken its part of the reply. -/
def repliedAt (reply : Bytes) (desc : VirtqDesc) (written : Nat) (m : Ram) : Ram :=
  if desc.isWrite then m.store desc.addr (window reply written (min (reply.length - written) desc.len.toNat)) else m

/-- One of the first `n` descriptors from `i` on takes the end of the reply or is the last of its chain, or the chain
leads to a descriptor without an address before a further one is visited. Each descriptor is read from memory as the
ones before it have left it. -/
def ReplyStops (q : VirtioQueue) (reply : Bytes) : (n : Nat) → (i : UInt16) → (written : Nat) → Ram → Prop
  | 0, i, _, _ => ¬q.DescSafe i
  | n + 1, i, written, m =>
    let desc := q.descAt m i
    ¬q.DescSafe i ∨ (desc.isWrite = true ∧ reply.length ≤ writtenAt reply desc written) ∨ desc.hasNext = false ∨
      ReplyStops q reply n desc.next (writtenAt reply desc written) (repliedAt reply desc written m)

theorem writtenAt_le (h : written ≤ reply.length) (desc : VirtqDesc) :
    writtenAt reply desc written ≤ reply.length := by
  unfold writtenAt
  split_ifs
  · omega
  · exact h

theorem replyAt_eq (h : written ≤ reply.length) (desc : VirtqDesc) (m : Ram) : ∃ parts, replyAt reply desc written m =
      .ok (parts, writtenAt reply desc written, repliedAt reply desc written m) := by
  unfold replyAt writtenAt repliedAt
  split_ifs
  · have hslice : slice reply written (written + min (reply.length - written) desc.len.toNat) =
        .ok (window reply written (min (reply.length - written) desc.len.toNat)) := by
      refine slice_eq_ok.mpr ⟨Nat.le_add_right _ _, by omega, ?_⟩
      rw [Nat.add_sub_cancel_left]
      rfl
    dsimp only
    rw [hslice]
    exact ⟨_, rfl⟩
  · exact ⟨[], rfl⟩

theorem replyNext_of_unsafe {desc : VirtqDesc} (written : Nat) (hnext : desc.hasNext = true)
    (hbad : ¬c.queue.DescSafe desc.next) : ∃ t, replyNext desc written c = .error (.panic .overflow) t := by
  obtain ⟨t, hfetch⟩ := Serve.getDescriptor_of_astray (.next desc) hbad
  refine ⟨t, ?_⟩
  unfold replyNext
  rw [hnext, if_neg (by decide), bind_of_error hfetch]

theorem replyStep_of_unsafe {desc : VirtqDesc} (hle : written ≤ reply.length)
    (hmore : replyEnds reply desc (writtenAt reply desc written) = false) (hbad : ¬c.queue.DescSafe desc.next) :
    ∃ t, replyStep reply (desc, written) c = .error (.panic .overflow) t := by
  unfold replyEnds at hmore
  rw [Bool.or_eq_false_iff, Bool.not_eq_false'] at hmore
  obtain ⟨hnext, hmore⟩ := hmore
  show ∃ t, (if desc.isWrite = true then _ else replyNext desc written : Serve (FsVirtio H) Ram _) c = _
  cases hwrite : desc.isWrite with
  | false => exact replyNext_of_unsafe written hnext hbad
  | true =>
    rw [hwrite, Bool.true_and, decide_eq_false_iff_not, writtenAt, if_pos hwrite] at hmore
    have hslice : slice reply written (written + min (reply.length - written) desc.len.toNat) = .ok _ :=
      slice_eq_ok.mpr ⟨Nat.le_add_right _ _,
        (Nat.add_le_add_left (Nat.min_le_left _ _) _).trans_eq (Nat.add_sub_cancel' hle), rfl⟩
    rw [if_pos rfl, bind_of_ok (lift_eq_ok.mpr ⟨hslice, rfl⟩),
      bind_of_ok (a := ()) (Serve.writeGuestMemory_iff.mpr ⟨_, rfl, rfl⟩), if_neg hmore]
    exact replyNext_of_unsafe _ hnext hbad

theorem stopsWithin_replyStep {q : VirtioQueue} {m : Ram} (hqueue : c.queue = q) (hmem : c.mem = m)
    {n : Nat} {i : UInt16} (hle : written ≤ reply.length) (hsafe : q.DescSafe i) :
    StopsWithin (fun fuel => loop (replyStep reply) fuel (q.descAt m i, written)) n c ↔
      ReplyStops q reply n i written m := by
  induction n generalizing i written m c with
  | zero => exact iff_of_false not_stopsWithin_zero (not_not.mpr hsafe)
  | succ n ih =>
    subst hqueue hmem
    unfold ReplyStops
    dsimp only
    generalize c.queue.descAt c.mem i = desc
    rw [or_iff_right (not_not.mpr hsafe)]
    obtain ⟨parts, hpart⟩ := replyAt_eq hle desc c.mem
    cases hends : replyEnds reply desc (writtenAt reply desc written) with
    | true =>
      have hround : replyStep reply (desc, written) c = .ok (.inr _) _ :=
        replyStep_eq_ok.mpr ⟨parts, _, _, hpart, Or.inl ⟨hends, rfl, rfl⟩⟩
      refine iff_of_true (stopsWithin_of_inr hround) ?_
      unfold replyEnds at hends
      rw [Bool.or_eq_true, Bool.not_eq_true', Bool.and_eq_true, decide_eq_true_eq] at hends
      tauto
    | false =>
      have hgoes : ¬(desc.isWrite = true ∧ reply.length ≤ writtenAt reply desc written) ∧
          ¬desc.hasNext = false := by
        unfold replyEnds at hends
        rw [Bool.or_eq_false_iff, Bool.not_eq_false'] at hends
        refine ⟨fun h => ?_, by simp [hends.1]⟩
        simp [h.1, h.2] at hends
      rw [or_iff_right hgoes.1, or_iff_right hgoes.2]
      by_cases hlink : c.queue.DescSafe desc.next
      · have hround : replyStep reply (desc, written) c = .ok (.inl (c.queue.descAt _ desc.next, _)) _ :=
          replyStep_eq_ok.mpr ⟨parts, _, _, hpart, Or.inr ⟨hends, _,
            VirtioQueue.getDescriptor_eq_ok.mpr ⟨hlink, rfl⟩, rfl, rfl⟩⟩
        rw [stopsWithin_succ_iff hround]
        exact ih (c := (storedParts c parts _).fetched (.next desc) _) rfl rfl (writtenAt_le hle desc) hlink
      · obtain ⟨t, hround⟩ := replyStep_of_unsafe hle hends hlink
        refine iff_of_true (stopsWithin_of_panic hround) ?_
        cases n with
        | zero => exact hlink
        | succ n => exact Or.inl hlink

theorem stopsWithin_writeOutReply (reply : Bytes) (n : Nat) :
    StopsWithin (fun fuel => writeOutReply fuel head reply) n c ↔ ReplyStops c.queue reply n head 0 c.mem := by
  by_cases hsafe : c.queue.DescSafe head
  · rw [show (fun fuel => writeOutReply fuel head reply : Nat → Serve (FsVirtio H) Ram Nat) =
      fun fuel => Serve.getDescriptor (.head head) >>= fun desc => loop (replyStep reply) fuel (desc, 0) from rfl]
    rw [stopsWithin_bind_of_ok (Serve.getDescriptor_of_safe (.head head) hsafe)]
    exact stopsWithin_replyStep (c := c.fetched (.head head) _) rfl rfl (Nat.zero_le _) hsafe
  · obtain ⟨t, hfetch⟩ := Serve.getDescriptor_of_astray (.head head) hsafe
    refine iff_of_true (stopsWithin_bind_of_panic hfetch) ?_
    cases n with
    | zero => exact hsafe
    | succ n => exact Or.inl hsafe

end FsVirtio

/-- A table whose first descriptor is readable and links to itself. -/
def selfLinked : Ram :=
  ⟨[{ isNull := false
      bytes := [0, 0, 0, 0, 0, 0, 0, 0, 0, 0, 0, 0, 1, 0, 0, 0]
      memOffset := 0
      size_le := by decide }]⟩

/-- A chain of the request queue starts with that descriptor. -/
def selfLinkedChain : Ctx (FsVirtio (HostOs.idle Unit Unit)) Ram where
  dev := FsVirtio.new [] (SharedFolder.new [47] ())
  queue := { VirtioQueue.new with size := 2, ready := true, availAddr := 32, usedAddr := 48 }
  mem := selfLinked
  log := []

end FerrumVM
