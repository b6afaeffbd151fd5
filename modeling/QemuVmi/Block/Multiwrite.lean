import QemuVmi.Util.Iovec

/-!
# Merging of write requests

`bdrv_aio_multiwrite` of `block.c` sorts the requests it is given and merges neighbours that touch or
overlap. A merge takes the first request up to the start of the second one and then the whole second
one, so that what the first request has behind the end of the second one is dropped.

Results:
1. `mergeInto_spec`: the sectors and the data of one merged request.
2. `Sourced.mergeLoop`: all the data that is submitted is data of the requests.
3. `multiwrite_correct_iff`: every sector gets its data, unless the end of a request is dropped.
-/

namespace QemuVmi.Block

open QemuVmi.Util List

def intMax : Nat := 0x7fffffff

def iovMax : Nat := 1024

/-- `BlockRequest`. `κ` is the callback with its `opaque` pointer. A merged request keeps the `flags`
of its first one; every caller passes 0. -/
structure BlockRequest (κ : Type) where
  sector : Nat
  nbSectors : Nat
  qiov : QEMUIOVector
  flags : Nat
  cb : κ
deriving DecidableEq, Repr

namespace BlockRequest

variable {κ : Type}

section
variable (req : BlockRequest κ)

/-- The sector behind the request, `oldreq_last`. -/
def last : Nat := req.sector + req.nbSectors

def Sized : Prop := req.qiov.size = req.nbSectors * 512

def Covers (x : Nat) : Prop := req.sector ≤ x ∧ x < req.last
end

/-- The 512 bytes that the request writes to sector `x`. -/
def sectorData (mem : Nat → UInt8) (req : BlockRequest κ) (x : Nat) : List UInt8 :=
  ((req.qiov.bytes mem).drop ((x - req.sector) * 512)).take 512

end BlockRequest

section
variable {κ : Type}

/-- `merge`, as the loop of `multiwrite_merge` computes it for `reqs[outidx]` and `reqs[i]`. -/
def mergeable (first second : BlockRequest κ) : Bool :=
  decide (second.sector ≤ first.last) && !decide (first.qiov.niov + second.qiov.niov + 1 > iovMax)

/-- The merge of `reqs[i]` into `reqs[outidx]`. `none` where an assertion fails or the number of
sectors does not fit into an `int`. -/
def mergeInto (first second : BlockRequest κ) : Option (BlockRequest κ) := do
  let size := (second.sector - first.sector) * 512
  let qiov ← QEMUIOVector.init.concat first.qiov 0 size
  guard (second.sector ≤ first.last)
  let qiov ← qiov.concat second.qiov 0 second.qiov.size
  if intMax < qiov.size / 512 then none
  else some { first with nbSectors := qiov.size / 512, qiov := qiov }

/-- The loop of `multiwrite_merge` at `reqs[outidx] = cur`. `out` are the requests before it. -/
def mergeLoop (out : List (BlockRequest κ)) (cur : BlockRequest κ) :
    List (BlockRequest κ) → Option (List (BlockRequest κ))
  | [] => some (out ++ [cur])
  | req :: reqs =>
    if mergeable cur req then
      match mergeInto cur req with
      | none => none
      | some merged => mergeLoop out merged reqs
    else mergeLoop (out ++ [cur]) req reqs

/-- `multiwrite_merge` after the `qsort`: the requests that remain. -/
def multiwriteMerge : List (BlockRequest κ) → Option (List (BlockRequest κ))
  | [] => some []
  | req :: reqs => mergeLoop [] req reqs

structure MultiwriteCB (κ : Type) where
  error : Int
  numRequests : Nat
  callbacks : List κ
deriving DecidableEq, Repr

/-- `multiwrite_user_cb`: the callbacks that are called, with the error they get. -/
def multiwriteUserCb (mcb : MultiwriteCB κ) : List (κ × Int) :=
  mcb.callbacks.map fun cb => (cb, mcb.error)

def multiwriteCb (mcb : MultiwriteCB κ) (ret : Int) : MultiwriteCB κ × List (κ × Int) :=
  let mcb := if ret < 0 ∧ mcb.error = 0 then { mcb with error := ret } else mcb
  let mcb := { mcb with numRequests := mcb.numRequests - 1 }
  (mcb, if mcb.numRequests = 0 then multiwriteUserCb mcb else [])

/-- The calls of `multiwrite_cb` for requests that finish with the given results, in that order, and
all the callbacks that are called from them. -/
def finish (mcb : MultiwriteCB κ) : List Int → MultiwriteCB κ × List (κ × Int)
  | [] => (mcb, [])
  | ret :: rets =>
    let (mcb, calls) := multiwriteCb mcb ret
    let (mcb, calls') := finish mcb rets
    (mcb, calls ++ calls')

/-- The order that `qsort` gives a list. It is not stable: requests for the same sector can be in any
order after it. -/
structure Qsort (κ : Type) where
  sort : List (BlockRequest κ) → List (BlockRequest κ)
  sort_perm : ∀ reqs, (sort reqs).Perm reqs
  sort_sorted : ∀ reqs, (sort reqs).Pairwise fun a b => a.sector ≤ b.sector

/-- What a call of `bdrv_aio_multiwrite` returns, the `error` fields it sets, and what it submits. -/
structure Submission (κ : Type) where
  ret : Int
  errors : List Int
  merged : List (BlockRequest κ)
  mcb : MultiwriteCB κ

def enomedium : Int := 123

/-- `bdrv_aio_multiwrite`. `drv` is false without a medium. -/
def bdrvAioMultiwrite (drv : Bool) (qsort : Qsort κ) (reqs : List (BlockRequest κ)) :
    Option (Submission κ) :=
  if drv = false then
    some { ret := -1, errors := reqs.map fun _ => -enomedium, merged := [], mcb := ⟨0, 0, []⟩ }
  else do
    let merged ← multiwriteMerge (qsort.sort reqs)
    some { ret := 0, errors := [], merged := merged, mcb := ⟨0, merged.length, reqs.map (·.cb)⟩ }
end

section
variable {κ : Type}

/-- Some request of the list writes sector `x`. -/
def Covered (reqs : List (BlockRequest κ)) (x : Nat) : Prop := ∃ req ∈ reqs, req.Covers x

/-- The data of `req` for each of its sectors is that of a request in `reqs` for the sector. -/
def Sourced (reqs : List (BlockRequest κ)) (req : BlockRequest κ) : Prop :=
  ∀ x, req.Covers x →
    ∃ orig ∈ reqs, orig.Covers x ∧ ∀ mem, req.sectorData mem x = orig.sectorData mem x

/-- `rets` are the results of the submitted requests in the order in which they finish. -/
structure CallsBack (reqs : List (BlockRequest κ)) (mcb : MultiwriteCB κ) (rets : List Int) :
    Prop where
  /-- No callback is called before the last request has finished. -/
  waits : ∀ n < rets.length, (finish mcb (rets.take n)).2 = []
  /-- Then each is called once, and all with the same result. -/
  calls : ∃ error, (finish mcb rets).2 = reqs.map (fun req => (req.cb, error)) ∧
    (error ≠ 0 ↔ ∃ ret ∈ rets, ret < 0)

structure Submission.Correct (sub : Submission κ) (reqs : List (BlockRequest κ)) : Prop where
  sectors : ∀ x, Covered sub.merged x ↔ Covered reqs x
  data : ∀ req ∈ sub.merged, Sourced reqs req
  callbacks : ∀ rets : List Int, rets.length = sub.merged.length → CallsBack reqs sub.mcb rets

/-- Along the loop of `multiwrite_merge`, the sectors that a merge drops are those of a request that
comes later or of a submitted request before the merged one, and a merged request has at most
`INT_MAX` sectors. -/
def TailsCovered (out : List (BlockRequest κ)) (cur : BlockRequest κ) : List (BlockRequest κ) → Prop
  | [] => True
  | req :: reqs =>
    if mergeable cur req then
      match mergeInto cur req with
      | none => False
      | some merged =>
        (∀ x < cur.last, req.last ≤ x → Covered out x ∨ Covered reqs x) ∧
          TailsCovered out merged reqs
    else TailsCovered (out ++ [cur]) req reqs

instance (req : BlockRequest κ) (x : Nat) : Decidable (req.Covers x) :=
  inferInstanceAs (Decidable (_ ∧ _))

instance (req : BlockRequest κ) : Decidable req.Sized := inferInstanceAs (Decidable (_ = _))

instance (reqs : List (BlockRequest κ)) (x : Nat) : Decidable (Covered reqs x) :=
  inferInstanceAs (Decidable (∃ req ∈ reqs, req.Covers x))

def MergeKeeps : List (BlockRequest κ) → Prop
  | [] => True
  | req :: reqs => TailsCovered [] req reqs
end

section
variable {κ : Type} {first second merged : BlockRequest κ}

structure Merged (first second merged : BlockRequest κ) : Prop where
  sector_eq : merged.sector = first.sector
  last_eq : merged.last = second.last
  sized : merged.Sized
  bytes_eq : ∀ mem, merged.qiov.bytes mem =
    (first.qiov.bytes mem).take ((second.sector - first.sector) * 512) ++ second.qiov.bytes mem

lemma length_head (hfirst : first.Sized) (htouch : second.sector ≤ first.last)
    (mem : Nat → UInt8) :
    ((first.qiov.bytes mem).take ((second.sector - first.sector) * 512)).length =
      (second.sector - first.sector) * 512 := by
  rw [length_take, QEMUIOVector.bytes_length, hfirst]
  unfold BlockRequest.last at htouch
  omega

lemma mergeInto_spec (hfirst : first.Sized) (hsecond : second.Sized)
    (hle : first.sector ≤ second.sector) (h : mergeInto first second = some merged) :
    Merged first second merged := by
  obtain ⟨head, hhead, h⟩ := Option.bind_eq_some_iff.mp h
  obtain ⟨_, hassert, h⟩ := Option.bind_eq_some_iff.mp h
  obtain ⟨qiov, hqiov, h⟩ := Option.bind_eq_some_iff.mp h
  obtain ⟨_, hhead', hbytes⟩ := QEMUIOVector.concat_spec QEMUIOVector.init first.qiov 0
    ((second.sector - first.sector) * 512) (Nat.zero_le _)
  obtain ⟨_, hqiov', hbytes'⟩ := QEMUIOVector.concat_spec head second.qiov 0
    second.qiov.size (Nat.zero_le _)
  obtain rfl := Option.some.inj (hhead.symm.trans hhead')
  obtain rfl := Option.some.inj (hqiov.symm.trans hqiov')
  have htouch : second.sector ≤ first.last := by
    by_contra hgap
    simp [guard, hgap] at hassert
  have hdata : ∀ mem, qiov.bytes mem =
      (first.qiov.bytes mem).take ((second.sector - first.sector) * 512) ++
        second.qiov.bytes mem := by
    intro mem
    rw [hbytes', hbytes, drop_zero, drop_zero, QEMUIOVector.bytes_init, nil_append,
      take_of_length_le (QEMUIOVector.bytes_length mem second.qiov).le]
  have hsize : qiov.size = (second.sector - first.sector + second.nbSectors) * 512 := by
    rw [← QEMUIOVector.bytes_length fun _ => 0, hdata, length_append,
      length_head hfirst htouch, QEMUIOVector.bytes_length, hsecond, ← add_mul]
  split at h
  · cases h
  cases h
  have hcount : qiov.size / 512 = second.sector - first.sector + second.nbSectors := by omega
  refine ⟨rfl, ?_, ?_, hdata⟩
  · simp only [BlockRequest.last, hcount]
    omega
  · rw [BlockRequest.Sized, hcount, hsize]

variable {x : Nat}

lemma Merged.sectorData_of_lt (hmerged : Merged first second merged) (hfirst : first.Sized)
    (htouch : second.sector ≤ first.last) (hx : first.sector ≤ x) (hlt : x < second.sector)
    (mem : Nat → UInt8) : merged.sectorData mem x = first.sectorData mem x := by
  have hlength := length_head hfirst htouch mem
  rw [BlockRequest.sectorData, BlockRequest.sectorData, hmerged.bytes_eq, hmerged.sector_eq,
    drop_append_of_le_length (by omega), take_append_of_le_length, drop_take,
    take_take, min_eq_left (by omega)]
  rw [length_drop]
  omega

lemma Merged.sectorData_of_le (hmerged : Merged first second merged) (hfirst : first.Sized)
    (hle : first.sector ≤ second.sector) (htouch : second.sector ≤ first.last)
    (hx : second.sector ≤ x) (mem : Nat → UInt8) :
    merged.sectorData mem x = second.sectorData mem x := by
  have hlength := length_head hfirst htouch mem
  have hoff : (x - first.sector) * 512 =
      (second.sector - first.sector) * 512 + (x - second.sector) * 512 := by omega
  rw [BlockRequest.sectorData, BlockRequest.sectorData, hmerged.bytes_eq, hmerged.sector_eq, hoff,
    drop_append, hlength, drop_of_length_le (by omega), nil_append,
    Nat.add_sub_cancel_left]

lemma mergeable.touches (h : mergeable first second = true) : second.sector ≤ first.last := by
  simp only [mergeable, Bool.and_eq_true, decide_eq_true_eq] at h
  exact h.1

lemma Merged.covers_iff (hmerged : Merged first second merged) :
    merged.Covers x ↔ first.sector ≤ x ∧ x < second.last := by
  rw [BlockRequest.Covers, hmerged.sector_eq, hmerged.last_eq]
end

section
variable {κ : Type} {reqs rest out merged : List (BlockRequest κ)} {cur req : BlockRequest κ}
  {x : Nat}

lemma covered_append {l l' : List (BlockRequest κ)} :
    Covered (l ++ l') x ↔ Covered l x ∨ Covered l' x := by
  simp only [Covered, mem_append, or_and_right, exists_or]

lemma covered_cons {l : List (BlockRequest κ)} :
    Covered (req :: l) x ↔ req.Covers x ∨ Covered l x := by
  simp only [Covered, mem_cons, or_and_right, exists_or, exists_eq_left]

/-- What the loop finds at `reqs[outidx]` and behind `reqs[i]`. -/
structure LoopInv (cur : BlockRequest κ) (rest : List (BlockRequest κ)) : Prop where
  sorted : (cur :: rest).Pairwise fun a b => a.sector ≤ b.sector
  sized : ∀ req ∈ cur :: rest, req.Sized

section
variable (h : LoopInv cur (req :: rest))
include h

lemma LoopInv.le : cur.sector ≤ req.sector :=
  rel_of_pairwise_cons h.sorted mem_cons_self

lemma LoopInv.into {first : BlockRequest κ}
    (hinto : mergeInto cur req = some first) : Merged cur req first :=
  mergeInto_spec (h.sized cur (by simp)) (h.sized req (by simp)) h.le hinto

lemma LoopInv.merge {first : BlockRequest κ}
    (hinto : mergeInto cur req = some first) : LoopInv first rest := by
  have hmerged := h.into hinto
  obtain ⟨hcur, hreq⟩ := pairwise_cons.mp h.sorted
  refine ⟨pairwise_cons.mpr ⟨fun q hq => ?_, (pairwise_cons.mp hreq).2⟩, ?_⟩
  · rw [hmerged.sector_eq]
    exact hcur q (mem_cons_of_mem _ hq)
  intro q hq
  rcases mem_cons.mp hq with rfl | hq
  · exact hmerged.sized
  · exact h.sized q (by simp [hq])

lemma LoopInv.next : LoopInv req rest :=
  ⟨(pairwise_cons.mp h.sorted).2, fun q hq => h.sized q (mem_cons_of_mem _ hq)⟩
end

lemma Sourced.self (hreq : req ∈ reqs) : Sourced reqs req :=
  fun _ hx => ⟨req, hreq, hx, fun _ => rfl⟩

lemma Sourced.merge {first : BlockRequest κ} (hcur : Sourced reqs cur) (hreq : req ∈ reqs)
    (hinv : LoopInv cur (req :: rest)) (hmergeable : mergeable cur req = true)
    (hinto : mergeInto cur req = some first) : Sourced reqs first := by
  have hmerged := hinv.into hinto
  have htouch := mergeable.touches hmergeable
  have hsized := hinv.sized cur (by simp)
  intro x hx
  obtain ⟨hstart, hlast⟩ := hmerged.covers_iff.mp hx
  rcases Nat.lt_or_ge x req.sector with hlt | hge
  · obtain ⟨orig, horig, hcovers, hdata⟩ := hcur x ⟨hstart, by omega⟩
    refine ⟨orig, horig, hcovers, fun mem => ?_⟩
    rw [hmerged.sectorData_of_lt hsized htouch hstart hlt, hdata]
  · exact ⟨req, hreq, ⟨hge, hlast⟩,
      fun mem => hmerged.sectorData_of_le hsized hinv.le htouch hge mem⟩

lemma Sourced.mergeLoop : ∀ {rest out : List (BlockRequest κ)} {cur : BlockRequest κ},
    LoopInv cur rest → (∀ req ∈ rest, req ∈ reqs) → (∀ req ∈ out, Sourced reqs req) →
    Sourced reqs cur → mergeLoop out cur rest = some merged → ∀ req ∈ merged, Sourced reqs req := by
  intro rest
  induction rest with
  | nil =>
    rintro out cur - - hout hcur h
    cases h
    simpa [or_imp, forall_and] using ⟨hout, hcur⟩
  | cons req rest ih =>
    intro out cur hinv hrest hout hcur h
    have hrest' : ∀ q ∈ rest, q ∈ reqs := fun q hq => hrest q (mem_cons_of_mem _ hq)
    have hreq : req ∈ reqs := hrest req mem_cons_self
    rw [Block.mergeLoop] at h
    split at h
    next hmergeable =>
      split at h
      · cases h
      next first hinto =>
        exact ih (hinv.merge hinto) hrest' hout (hcur.merge hreq hinv hmergeable hinto) h
    · refine ih hinv.next hrest' ?_ (Sourced.self hreq) h
      simpa [or_imp, forall_and] using ⟨hout, hcur⟩

lemma covered_of_mergeLoop (hinv : LoopInv cur rest) (h : mergeLoop out cur rest = some merged)
    (hx : Covered merged x) : Covered (out ++ cur :: rest) x := by
  have hsourced : ∀ req ∈ merged, Sourced (out ++ cur :: rest) req :=
    Sourced.mergeLoop hinv (fun q hq => by simp [hq]) (fun q hq => Sourced.self (by simp [hq]))
      (Sourced.self (by simp)) h
  obtain ⟨req, hreq, hcovers⟩ := hx
  obtain ⟨orig, horig, hcovers', -⟩ := hsourced req hreq x hcovers
  exact ⟨orig, horig, hcovers'⟩

/-- The sectors that are left after a merge: those behind the second request are lost, unless another
request has them. -/
lemma Merged.keeps_iff {first : BlockRequest κ} (hmerged : Merged cur req first)
    (hle : cur.sector ≤ req.sector) :
    (∀ x, Covered (out ++ cur :: req :: rest) x → Covered (out ++ first :: rest) x) ↔
      ∀ x < cur.last, req.last ≤ x → Covered out x ∨ Covered rest x := by
  simp only [covered_append, covered_cons, BlockRequest.Covers, hmerged.sector_eq, hmerged.last_eq]
  constructor
  · intro hkeeps x hx hreq
    have hreq' : req.sector ≤ req.last := Nat.le_add_right _ _
    rcases hkeeps x (.inr (.inl ⟨by omega, hx⟩)) with hout | hfirst | hrest
    · exact .inl hout
    · omega
    · exact .inr hrest
  rintro htail x (hout | hcur | hreq | hrest)
  · exact .inl hout
  · by_cases hx : x < req.last
    · exact .inr (.inl ⟨hcur.1, hx⟩)
    · rcases htail x hcur.2 (by omega) with hout | hrest
      · exact .inl hout
      · exact .inr (.inr hrest)
  · exact .inr (.inl ⟨by omega, hreq.2⟩)
  · exact .inr (.inr hrest)

lemma Merged.covered_of_merge {first : BlockRequest κ} (hmerged : Merged cur req first)
    (htouch : req.sector ≤ cur.last) (hx : Covered (out ++ first :: rest) x) :
    Covered (out ++ cur :: req :: rest) x := by
  simp only [covered_append, covered_cons, BlockRequest.Covers, hmerged.sector_eq, hmerged.last_eq] at hx ⊢
  rcases hx with hout | hfirst | hrest
  · exact .inl hout
  · rcases Nat.lt_or_ge x req.sector with hlt | hge
    · exact .inr (.inl ⟨hfirst.1, by omega⟩)
    · exact .inr (.inr (.inl ⟨hge, hfirst.2⟩))
  · exact .inr (.inr (.inr hrest))

/-- The merged requests have all the sectors of the requests exactly when no merge drops a sector
that only the request in front has. -/
lemma tailsCovered_iff : ∀ {rest out : List (BlockRequest κ)} {cur : BlockRequest κ},
    LoopInv cur rest → (TailsCovered out cur rest ↔ ∃ merged, mergeLoop out cur rest = some merged ∧
      ∀ x, Covered (out ++ cur :: rest) x → Covered merged x) := by
  intro rest
  induction rest with
  | nil => intro out cur _; simp [TailsCovered, mergeLoop]
  | cons req rest ih =>
    intro out cur hinv
    rw [TailsCovered, mergeLoop]
    split
    next hmergeable =>
      have htouch := mergeable.touches hmergeable
      cases hinto : mergeInto cur req with
      | none => simp
      | some first =>
        have hmerged := hinv.into hinto
        have hinv' := hinv.merge hinto
        dsimp only
        rw [ih hinv', ← hmerged.keeps_iff hinv.le]
        constructor
        · rintro ⟨hkeeps, merged, hloop, hall⟩
          exact ⟨merged, hloop, fun x hx => hall x (hkeeps x hx)⟩
        · rintro ⟨merged, hloop, hall⟩
          exact ⟨fun x hx => covered_of_mergeLoop hinv' hloop (hall x hx), merged, hloop,
            fun x hx => hall x (hmerged.covered_of_merge htouch hx)⟩
    · rw [ih hinv.next, append_assoc, singleton_append]

lemma mergeLoop_ne_nil : ∀ {rest out : List (BlockRequest κ)} {cur : BlockRequest κ},
    mergeLoop out cur rest = some merged → merged ≠ [] := by
  intro rest
  induction rest with
  | nil =>
    intro out cur h
    cases h
    simp
  | cons req rest ih =>
    intro out cur h
    rw [mergeLoop] at h
    split at h
    · split at h
      · cases h
      · exact ih h
    · exact ih h
end

section
variable {κ : Type}

/-- `error` after the given results: the first of them that is negative. -/
def errorAfter (error : Int) : List Int → Int
  | [] => error
  | ret :: rets => errorAfter (if ret < 0 ∧ error = 0 then ret else error) rets

lemma errorAfter_ne_zero_iff (rets : List Int) :
    ∀ error, errorAfter error rets ≠ 0 ↔ error ≠ 0 ∨ ∃ ret ∈ rets, ret < 0 := by
  induction rets with
  | nil => simp [errorAfter]
  | cons ret rets ih =>
    intro error
    rw [errorAfter, ih]
    simp only [mem_cons, or_and_right, exists_or, exists_eq_left, ← or_assoc]
    refine or_congr_left ?_
    split <;> omega

lemma finish_cons (mcb : MultiwriteCB κ) (ret : Int) (rets : List Int) :
    (finish mcb (ret :: rets)).2 =
      (if mcb.numRequests - 1 = 0 then mcb.callbacks.map (·, errorAfter mcb.error [ret]) else []) ++
        (finish ⟨errorAfter mcb.error [ret], mcb.numRequests - 1, mcb.callbacks⟩ rets).2 := by
  simp only [finish, multiwriteCb, multiwriteUserCb, errorAfter]
  split <;> rfl

lemma finish_of_lt (rets : List Int) : ∀ mcb : MultiwriteCB κ, rets.length < mcb.numRequests →
    (finish mcb rets).2 = [] := by
  induction rets with
  | nil => intro mcb _; rfl
  | cons ret rets ih =>
    intro mcb hlt
    rw [length_cons] at hlt
    have hmore : mcb.numRequests - 1 ≠ 0 := by omega
    rw [finish_cons, if_neg hmore, nil_append]
    exact ih _ (Nat.lt_sub_of_add_lt hlt)

lemma finish_of_eq (rets : List Int) : ∀ mcb : MultiwriteCB κ, rets.length = mcb.numRequests →
    rets ≠ [] → (finish mcb rets).2 = mcb.callbacks.map (·, errorAfter mcb.error rets) := by
  induction rets with
  | nil => intro mcb _ h; exact absurd rfl h
  | cons ret rets ih =>
    intro mcb hlength _
    rw [length_cons] at hlength
    cases rets with
    | nil =>
      have hlast : mcb.numRequests - 1 = 0 := by rw [← hlength]; rfl
      rw [finish_cons, if_pos hlast, finish, append_nil]
    | cons ret' rets =>
      have hmore : mcb.numRequests - 1 ≠ 0 := by rw [← hlength]; simp
      have hrest := ih ⟨errorAfter mcb.error [ret], mcb.numRequests - 1, mcb.callbacks⟩
        (by rw [← hlength]; rfl) (by simp)
      rw [finish_cons, if_neg hmore, nil_append, hrest]
      rfl

lemma callsBack {reqs : List (BlockRequest κ)} {n : Nat} (hn : n = 0 → reqs = [])
    {rets : List Int} (hlength : rets.length = n) :
    CallsBack reqs ⟨0, n, reqs.map (·.cb)⟩ rets := by
  refine ⟨fun k hk => ?_, errorAfter 0 rets, ?_, ?_⟩
  · refine finish_of_lt _ _ ?_
    rw [length_take]
    dsimp only
    omega
  · rcases eq_or_ne rets [] with rfl | hne
    · rw [hn hlength.symm]
      rfl
    · rw [finish_of_eq rets _ hlength hne, map_map]
      rfl
  · simpa using errorAfter_ne_zero_iff rets 0
end

section
variable {κ : Type} {sorted : List (BlockRequest κ)}
  (hsorted : sorted.Pairwise fun a b => a.sector ≤ b.sector)
  (hsized : ∀ req ∈ sorted, req.Sized)

include hsorted hsized in
/-- For the sorted list: the merged requests have all the sectors exactly when no merge drops one
that no other request has. -/
lemma mergeKeeps_iff : MergeKeeps sorted ↔ ∃ merged, multiwriteMerge sorted = some merged ∧
      ∀ x, Covered sorted x → Covered merged x := by
  cases sorted with
  | nil => simp [MergeKeeps, multiwriteMerge]
  | cons req reqs => exact tailsCovered_iff ⟨hsorted, hsized⟩

include hsorted hsized in
lemma multiwriteMerge_sourced {merged : List (BlockRequest κ)}
    (h : multiwriteMerge sorted = some merged) : ∀ req ∈ merged, Sourced sorted req := by
  cases sorted with
  | nil =>
    cases h
    simp
  | cons req reqs =>
    exact Sourced.mergeLoop ⟨hsorted, hsized⟩ (fun q hq => mem_cons_of_mem _ hq) (by simp)
      (Sourced.self mem_cons_self) h

lemma eq_nil_of_multiwriteMerge {merged : List (BlockRequest κ)}
    (h : multiwriteMerge sorted = some merged) (hnil : merged = []) : sorted = [] := by
  cases sorted with
  | nil => rfl
  | cons req reqs => exact absurd hnil (mergeLoop_ne_nil h)

lemma Covered.perm {reqs reqs' : List (BlockRequest κ)} (h : reqs.Perm reqs') {x : Nat} :
    Covered reqs x ↔ Covered reqs' x := by
  simp only [Covered, h.mem_iff]

/-- For every list of requests: the merged requests have exactly the sectors of the requests, with
the data that one of the requests has for the sector, and each callback is called once after they
have all finished, with an error iff one of them failed, exactly when no merge drops a sector that no
other request has. -/
theorem multiwrite_correct_iff (qsort : Qsort κ) (reqs : List (BlockRequest κ))
    (hsized : ∀ req ∈ reqs, req.Sized) :
    (∃ sub, bdrvAioMultiwrite true qsort reqs = some sub ∧ sub.Correct reqs) ↔
      MergeKeeps (qsort.sort reqs) := by
  have hperm := qsort.sort_perm reqs
  have hsorted := qsort.sort_sorted reqs
  have hsized' : ∀ req ∈ qsort.sort reqs, req.Sized := fun req hreq =>
    hsized req (hperm.mem_iff.mp hreq)
  rw [mergeKeeps_iff hsorted hsized']
  constructor
  · rintro ⟨sub, hsub, hcorrect⟩
    obtain ⟨merged, hmerge, hsub⟩ := Option.bind_eq_some_iff.mp hsub
    cases hsub
    exact ⟨merged, hmerge, fun x hx => (hcorrect.sectors x).mpr ((Covered.perm hperm).mp hx)⟩
  rintro ⟨merged, hmerge, hall⟩
  have hsourced : ∀ req ∈ merged, Sourced reqs req := by
    intro req hreq x hx
    obtain ⟨orig, horig, hdata⟩ := multiwriteMerge_sourced hsorted hsized' hmerge req hreq x hx
    exact ⟨orig, hperm.mem_iff.mp horig, hdata⟩
  refine ⟨_, Option.bind_eq_some_iff.mpr ⟨merged, hmerge, rfl⟩, ⟨fun x => ⟨?_, fun hx => ?_⟩,
    hsourced, fun rets hlength => callsBack (fun hzero => ?_) hlength⟩⟩
  · rintro ⟨req, hreq, hx⟩
    obtain ⟨orig, horig, hcovers, -⟩ := hsourced req hreq x hx
    exact ⟨orig, horig, hcovers⟩
  · exact hall x ((Covered.perm hperm).mpr hx)
  · have hnil := eq_nil_of_multiwriteMerge hmerge (eq_nil_of_length_eq_zero hzero)
    exact (hnil ▸ hperm).symm.eq_nil

/-- `qsort` where requests for the same sector stay in their order. -/
def insertionQsort : Qsort κ where
  sort := List.insertionSort fun a b => a.sector ≤ b.sector
  sort_perm := perm_insertionSort _
  sort_sorted := by
    have : Std.Total fun a b : BlockRequest κ => a.sector ≤ b.sector :=
      ⟨fun a b => Nat.le_total a.sector b.sector⟩
    have : IsTrans (BlockRequest κ) fun a b => a.sector ≤ b.sector :=
      ⟨fun _ _ _ => le_trans⟩
    exact pairwise_insertionSort _
end

/-- A write of `nb` sectors with one piece of memory for each of them. -/
def writeRequest (sector nb base : Nat) : BlockRequest Nat where
  sector := sector
  nbSectors := nb
  qiov := .initExternal ((List.range nb).map fun i => ⟨base + i * 512, 512⟩)
  flags := 0
  cb := base

/-- Sectors 2 to 5, then 0 to 2: the data of the first is used from sector 2 on. -/
theorem multiwrite_correct_overlapping :
    ∃ sub, bdrvAioMultiwrite true insertionQsort [writeRequest 2 4 0, writeRequest 0 3 8192] =
      some sub ∧ sub.Correct [writeRequest 2 4 0, writeRequest 0 3 8192] := by
  refine (multiwrite_correct_iff insertionQsort _ (by decide)).mpr ?_
  have hsort : insertionQsort.sort [writeRequest 2 4 0, writeRequest 0 3 8192] =
      [writeRequest 0 3 8192, writeRequest 2 4 0] := by decide
  rw [hsort, MergeKeeps, TailsCovered, if_pos (by decide)]
  cases hinto : mergeInto (writeRequest 0 3 8192) (writeRequest 2 4 0) with
  | none => revert hinto; decide
  | some merged => exact ⟨by decide, trivial⟩

/-- A write to the sectors 0 to 3 and one to sector 1: the merged request is for the sectors 0 and 1,
and the sectors 2 and 3 are not written. -/
theorem multiwrite_loses_sectors :
    ∃ sub, bdrvAioMultiwrite true insertionQsort [writeRequest 0 4 0, writeRequest 1 1 8192] =
        some sub ∧
      sub.merged.map (fun req => (req.sector, req.nbSectors)) = [(0, 2)] ∧
      Covered [writeRequest 0 4 0, writeRequest 1 1 8192] 3 ∧ ¬ Covered sub.merged 3 ∧
      ¬ sub.Correct [writeRequest 0 4 0, writeRequest 1 1 8192] := by
  have hlost : Covered [writeRequest 0 4 0, writeRequest 1 1 8192] 3 := by decide
  obtain ⟨sub, hsub, hmerged⟩ := Option.map_eq_some_iff.mp
    (show (bdrvAioMultiwrite true insertionQsort
        [writeRequest 0 4 0, writeRequest 1 1 8192]).map (fun sub =>
        (sub.merged.map (fun req => (req.sector, req.nbSectors)), decide (Covered sub.merged 3))) =
      some ([(0, 2)], false) by decide)
  obtain ⟨hranges, huncovered⟩ := Prod.ext_iff.mp hmerged
  have hnot : ¬ Covered sub.merged 3 := of_decide_eq_false huncovered
  exact ⟨sub, hsub, hranges, hlost, hnot, fun hcorrect => hnot ((hcorrect.sectors 3).mpr hlost)⟩

end QemuVmi.Block
