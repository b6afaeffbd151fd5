import Mathlib

/-!
# Packet queues

`net/queue.c`. A packet that the receiver does not take is queued, and so is what the receiver sends
while a packet is delivered to it. `qemu_net_queue_send` tries to deliver its packet before it
flushes the queue, also if older packets are queued.

Results:
1. `packets_accounted`: where the packets of a run are, and which callbacks have run.
2. `not_overtaken_iff`: the runs in which no packet is delivered before an older one of its sender.
-/

namespace QemuVmi.Net

open List Prod

/-- A packet. It is the `nr`-th that was sent. -/
structure NetPacket where
  nr : Nat
  sender : Nat
  flags : Nat
  data : List UInt8
  sentCb : Bool
deriving DecidableEq

/-- What the receiver answers (an `int`), and what it sends while it has the packet. -/
structure Answer where
  ret : Int
  sends : List NetPacket

structure NetQueue where
  packets : List NetPacket
  nqCount : Nat
  sent : List NetPacket
  /-- The packets that the receiver has taken, or has refused with an error. -/
  direct : List (NetPacket × Int)
  flushed : List (NetPacket × Int)
  /-- With `nq_count` at that time. -/
  dropped : List (NetPacket × Nat)
  /-- With the sender that the purge was for. -/
  purged : List (NetPacket × Nat)
  /-- The packets whose `sent_cb` was called. -/
  called : List NetPacket
  /-- The packets that were taken while an older one of their sender was queued. -/
  overtaking : List NetPacket

def NetQueue.new : NetQueue := ⟨[], 0, [], [], [], [], [], [], []⟩

namespace NetQueue

variable (q : NetQueue) (p : NetPacket)

/-- `qemu_net_queue_append`, and `qemu_net_queue_append_iov` with the data of the vector. -/
def append : NetQueue :=
  if q.nqCount ≥ 10000 && !p.sentCb then { q with dropped := q.dropped ++ [(p, q.nqCount)] }
  else { q with nqCount := q.nqCount + 1, packets := q.packets ++ [p] }

def numbered : NetPacket := { p with nr := q.sent.length }

def record : NetQueue := { q with sent := q.sent ++ [q.numbered p] }

/-- `qemu_net_queue_deliver`: what the receiver sends is appended, since `delivering` is set. -/
def deliver (answer : Answer) : NetQueue :=
  let q := { q with overtaking := q.overtaking ++
      if answer.ret > 0 ∧ ∃ older ∈ q.packets, older.sender = p.sender ∧ older.nr < p.nr then [p]
      else [] }
  answer.sends.foldl (fun q p => (q.record p).append (q.numbered p)) q

/-- `qemu_net_queue_flush`. The receiver does not take a packet behind its last answer. -/
def flush (q : NetQueue) : List Answer → NetQueue
  | [] => q
  | answer :: answers =>
    match q.packets with
    | [] => q
    | p :: packets =>
      let q := { q with packets := packets, nqCount := q.nqCount - 1 }.deliver p answer
      if answer.ret = 0 then { q with packets := p :: q.packets, nqCount := q.nqCount + 1 }
      else
        flush { q with
          flushed := q.flushed ++ [(p, answer.ret)]
          called := if p.sentCb then q.called ++ [p] else q.called } answers

/-- `qemu_net_queue_send` and `qemu_net_queue_send_iov`, with what `qemu_can_send_packet` says. -/
def send (canSend : Bool) (answer : Answer) (answers : List Answer) : NetQueue :=
  let p := q.numbered p
  let q := q.record p
  if !canSend then q.append p
  else
    let q := q.deliver p answer
    if answer.ret = 0 then q.append p
    else flush { q with direct := q.direct ++ [(p, answer.ret)] } answers

/-- `qemu_net_queue_purge` -/
def purge (sender : Nat) : NetQueue :=
  let removed := q.packets.filter fun p => p.sender = sender
  { q with
    packets := q.packets.filter fun p => p.sender ≠ sender
    nqCount := q.nqCount - removed.length
    purged := q.purged ++ removed.map fun p => (p, sender) }

end NetQueue

inductive NetOp
  | send (p : NetPacket) (canSend : Bool) (answer : Answer) (answers : List Answer)
  | flush (answers : List Answer)
  | purge (sender : Nat)

def netStep (q : NetQueue) : NetOp → NetQueue
  | .send p canSend answer answers => q.send p canSend answer answers
  | .flush answers => q.flush answers
  | .purge sender => q.purge sender

def netRun (ops : List NetOp) : NetQueue := ops.foldl netStep .new

/-- What has become of the packets that are not queued any more. -/
structure Fates (q : NetQueue) : Prop where
  /-- Dropped by a full queue, without a callback. -/
  dropped : ∀ d ∈ q.dropped, d.1.sentCb = false ∧ d.2 ≥ 10000
  /-- Taken by the receiver, or refused with an error and lost. -/
  answered : ∀ d ∈ q.direct ++ q.flushed, 0 < d.2 ∨ d.2 < 0
  purged : ∀ d ∈ q.purged, d.1.sender = d.2

/-- Each packet that was sent is in one place. The call under way has `held`. -/
structure Accounts (q : NetQueue) (held : List NetPacket) : Prop where
  count : q.nqCount = q.packets.length
  perm : (held ++ q.packets ++ q.direct.map fst ++ q.flushed.map fst ++ q.dropped.map fst ++
    q.purged.map fst).Perm q.sent
  numbers : q.sent.map NetPacket.nr = range q.sent.length
  fates : Fates q
  called : q.called = (q.flushed.map fst).filter NetPacket.sentCb

section
variable {q : NetQueue} {held : List NetPacket} {p : NetPacket}

lemma Accounts.move (h : Accounts q held) {q' : NetQueue} {held' : List NetPacket}
    (hsent : q'.sent = q.sent) (hcount : q'.nqCount = q'.packets.length)
    (hfates : Fates q')
    (hcalled : q'.called = (q'.flushed.map fst).filter NetPacket.sentCb)
    (hperm : ∀ p, (held' ++ q'.packets ++ q'.direct.map fst ++ q'.flushed.map fst ++
      q'.dropped.map fst ++ q'.purged.map fst).count p = (held ++ q.packets ++ q.direct.map fst ++
      q.flushed.map fst ++ q.dropped.map fst ++ q.purged.map fst).count p) : Accounts q' held' :=
  ⟨hcount, hsent ▸ (perm_iff_count.mpr hperm).trans h.perm, hsent ▸ h.numbers, hfates, hcalled⟩

lemma Accounts.record (h : Accounts q held) (p : NetPacket) :
    Accounts (q.record p) (q.numbered p :: held) where
  count := h.count
  perm := by
    have hperm := (h.perm.cons (q.numbered p)).trans (perm_append_singleton _ _).symm
    simpa [NetQueue.record] using hperm
  numbers := by simp [NetQueue.record, NetQueue.numbered, h.numbers, range_succ]
  fates := ⟨h.fates.dropped, h.fates.answered, h.fates.purged⟩
  called := h.called

lemma Accounts.append (h : Accounts q (p :: held)) : Accounts (q.append p) held := by
  unfold NetQueue.append
  split
  next hdrop =>
    refine h.move rfl h.count ⟨forall_mem_append.mpr ⟨h.fates.dropped, ?_⟩, h.fates.answered,
      h.fates.purged⟩ h.called fun x => ?_
    · simpa [and_comm] using hdrop
    · simp only [map_append, map_cons, map_nil, count_append, count_cons, count_nil]
      omega
  · refine h.move rfl (by simp [h.count]) ⟨h.fates.dropped, h.fates.answered, h.fates.purged⟩
      h.called fun x => ?_
    simp only [count_append, count_cons, count_nil]
    omega

lemma Accounts.deliver (h : Accounts q held) (p : NetPacket) (answer : Answer) :
    Accounts (q.deliver p answer) held := by
  unfold NetQueue.deliver
  generalize hq : { q with overtaking := _ } = q'
  have h' : Accounts q' held := hq ▸
    ⟨h.count, h.perm, h.numbers, ⟨h.fates.dropped, h.fates.answered, h.fates.purged⟩, h.called⟩
  clear h hq
  induction answer.sends generalizing q' with
  | nil => exact h'
  | cons x sends ih => exact ih _ (h'.record x).append

lemma Accounts.flush (h : Accounts q []) (answers : List Answer) :
    Accounts (q.flush answers) [] := by
  induction answers generalizing q with
  | nil => exact h
  | cons answer answers ih =>
    rw [NetQueue.flush]
    cases hpackets : q.packets with
    | nil => exact h
    | cons p packets =>
      have hcount := h.count
      rw [hpackets, length_cons] at hcount
      have htaken : Accounts { q with packets := packets, nqCount := q.nqCount - 1 } [p] := by
        refine h.move rfl (by simp [hcount])
          ⟨h.fates.dropped, h.fates.answered, h.fates.purged⟩ h.called fun x => ?_
        simp only [hpackets, count_append, count_cons, count_nil]
        omega
      have hdone := htaken.deliver p answer
      dsimp only
      generalize NetQueue.deliver _ p answer = q' at hdone
      obtain ⟨hdropped, hanswered, hpurged⟩ := hdone.fates
      split
      · refine hdone.move rfl (by simp [hdone.count]) ⟨hdropped, hanswered, hpurged⟩ hdone.called
          fun x => ?_
        simp only [count_append, count_cons, count_nil]
        omega
      next hret =>
      refine ih (hdone.move rfl hdone.count ⟨hdropped, ?_, hpurged⟩ ?_ fun x => ?_)
      · rw [← append_assoc]
        exact forall_mem_append.mpr ⟨hanswered, by simp; omega⟩
      · cases hcb : p.sentCb <;> simp [hdone.called, hcb]
      · simp only [map_append, map_cons, map_nil, count_append, count_cons, count_nil]
        omega

lemma Accounts.send (h : Accounts q []) (p : NetPacket) (canSend : Bool) (answer : Answer)
    (answers : List Answer) : Accounts (q.send p canSend answer answers) [] := by
  have hsent : Accounts (q.record (q.numbered p)) [q.numbered p] := h.record _
  unfold NetQueue.send
  dsimp only
  split
  · exact hsent.append
  have hdone := hsent.deliver (q.numbered p) answer
  generalize NetQueue.deliver _ _ answer = q' at hdone
  split
  · exact hdone.append
  next hret =>
  obtain ⟨hdropped, hanswered, hpurged⟩ := hdone.fates
  obtain ⟨hdirect, hflushed⟩ := forall_mem_append.mp hanswered
  refine Accounts.flush ?_ answers
  refine hdone.move rfl hdone.count ⟨hdropped, ?_, hpurged⟩ hdone.called fun x => ?_
  · exact forall_mem_append.mpr ⟨forall_mem_append.mpr ⟨hdirect, by simp; omega⟩, hflushed⟩
  simp only [map_append, map_cons, map_nil, count_append, count_cons, count_nil]
  omega

lemma Accounts.purge (h : Accounts q []) (sender : Nat) : Accounts (q.purge sender) [] := by
  have hperm := filter_append_perm (fun p : NetPacket => decide (p.sender = sender)) q.packets
  have hlength := hperm.length_eq
  have hne : (fun p : NetPacket => decide (p.sender ≠ sender)) =
      fun p => !decide (p.sender = sender) := funext fun p => decide_not
  rw [length_append] at hlength
  refine h.move rfl ?_ ⟨h.fates.dropped, h.fates.answered, forall_mem_append.mpr
    ⟨h.fates.purged, forall_mem_map.mpr fun p hp => of_decide_eq_true (mem_filter.mp hp).2⟩⟩
    h.called fun x => ?_
  · simp only [NetQueue.purge, hne, h.count]
    omega
  · have hcount := perm_iff_count.mp hperm x
    have hfst : ∀ l : List NetPacket, (l.map fun p => (p, sender)).map fst = l := fun l =>
      List.map_map.trans (map_id l)
    simp only [NetQueue.purge, hne, map_append, hfst, count_append] at hcount ⊢
    omega

end

inductive PlainOp
  | send (p : NetPacket) (canSend : Bool) (ret : Int) (rets : List Int)
  | flush (rets : List Int)

def plain (ret : Int) : Answer := ⟨ret, []⟩

def PlainOp.op : PlainOp → NetOp
  | .send p canSend ret rets => .send p canSend (plain ret) (rets.map plain)
  | .flush rets => .flush (rets.map plain)

def plainRun (ops : List PlainOp) : NetQueue := netRun (ops.map PlainOp.op)

def PlainOp.Waits (q : NetQueue) : PlainOp → Prop
  | .send p canSend ret _ => canSend = true → ret > 0 → ∀ older ∈ q.packets, older.sender ≠ p.sender
  | .flush _ => True

structure Ordered (q : NetQueue) : Prop where
  pairwise : q.packets.Pairwise fun a b => a.nr < b.nr
  lt : ∀ p ∈ q.packets, p.nr < q.sent.length

section
variable {q : NetQueue}

lemma Ordered.record (h : Ordered q) (p : NetPacket) : Ordered (q.record p) where
  pairwise := h.pairwise
  lt x hx := by simpa [NetQueue.record] using Nat.lt_succ_of_lt (h.lt x hx)

lemma Ordered.append (h : Ordered q) (p : NetPacket) :
    Ordered ((q.record p).append (q.numbered p)) := by
  have hsent := h.record p
  unfold NetQueue.append
  split
  · exact ⟨h.pairwise, hsent.lt⟩
  refine ⟨pairwise_append.mpr ⟨h.pairwise, pairwise_singleton _ _, fun x hx y hy => ?_⟩,
    fun x hx => ?_⟩
  · exact mem_singleton.mp hy ▸ h.lt x hx
  · rcases mem_append.mp hx with hx | hx
    · exact hsent.lt x hx
    · simp [mem_singleton.mp hx, NetQueue.record, NetQueue.numbered]

lemma append_overtaking (p : NetPacket) : (q.append p).overtaking = q.overtaking := by
  unfold NetQueue.append
  split <;> rfl

lemma Ordered.flush (h : Ordered q) (rets : List Int) :
    Ordered (q.flush (rets.map plain)) ∧ (q.flush (rets.map plain)).overtaking = q.overtaking := by
  induction rets generalizing q with
  | nil => exact ⟨h, rfl⟩
  | cons ret rets ih =>
    rw [map_cons, NetQueue.flush]
    cases hpackets : q.packets with
    | nil => exact ⟨h, rfl⟩
    | cons p packets =>
      have hpairwise := hpackets ▸ h.pairwise
      have hlt := hpackets ▸ h.lt
      have hfirst : ¬ (ret > 0 ∧ ∃ older ∈ packets, older.sender = p.sender ∧ older.nr < p.nr) := by
        rintro ⟨-, older, hmem, -, hnr⟩
        have := rel_of_pairwise_cons hpairwise hmem
        omega
      simp only [NetQueue.deliver, plain, foldl_nil, hfirst, if_false, append_nil]
      split
      · exact ⟨⟨hpairwise, hlt⟩, rfl⟩
      · exact ih ⟨hpairwise.of_cons, fun x hx => hlt x (mem_cons_of_mem p hx)⟩

lemma Ordered.step (h : Ordered q) (op : PlainOp) : Ordered (netStep q op.op) ∧
    ((netStep q op.op).overtaking = [] ↔ q.overtaking = [] ∧ op.Waits q) := by
  cases op with
  | flush rets =>
    have hflush := h.flush rets
    exact ⟨hflush.1, by simp [PlainOp.op, netStep, hflush.2, PlainOp.Waits]⟩
  | send p canSend ret rets =>
    have hwaits : (ret > 0 → ∀ older ∈ q.packets, older.sender ≠ p.sender) ↔
        ¬ (ret > 0 ∧ ∃ older ∈ q.packets, older.sender = p.sender ∧ older.nr < q.sent.length) :=
      ⟨fun hall ⟨hret, older, hmem, hsender, _⟩ => hall hret older hmem hsender,
        fun hnone hret older hmem hsender => hnone ⟨hret, older, hmem, hsender, h.lt older hmem⟩⟩
    simp only [PlainOp.op, netStep, NetQueue.send]
    cases canSend with
    | false => exact ⟨h.append p, by simp [append_overtaking, NetQueue.record, PlainOp.Waits]⟩
    | true =>
      simp only [NetQueue.deliver, plain, foldl_nil, PlainOp.Waits, hwaits, Bool.not_true,
        Bool.false_eq_true, if_false, forall_const]
      by_cases hret : ret = 0
      · simp only [hret, gt_iff_lt, Int.lt_irrefl, false_and, if_true, if_false, append_nil]
        exact ⟨h.append p, by simp [append_overtaking, NetQueue.record]⟩
      simp only [hret, if_false]
      refine And.imp_right (fun hovertaking => ?_) (Ordered.flush ?_ rets)
      · rw [hovertaking]
        simp [NetQueue.record, NetQueue.numbered]
      · exact ⟨h.pairwise, (h.record p).lt⟩
end

lemma plainRun_ordered (ops : List PlainOp) : Ordered (plainRun ops) := by
  induction ops using reverseRecOn with
  | nil => exact ⟨.nil, nofun⟩
  | append_singleton ops op ih =>
    rw [plainRun, map_append, netRun, foldl_append]
    exact (ih.step op).1

theorem not_overtaken_iff (ops : List PlainOp) : (plainRun ops).overtaking = [] ↔
    ∀ done op, done ++ [op] <+: ops → op.Waits (plainRun done) := by
  induction ops using reverseRecOn with
  | nil => simp [plainRun, netRun, NetQueue.new]
  | append_singleton ops op ih =>
    have hstep := ((plainRun_ordered ops).step op).2
    have hrun : plainRun (ops ++ [op]) = netStep (plainRun ops) op.op := by simp [plainRun, netRun]
    rw [hrun, hstep, ih]
    refine ⟨fun ⟨hdone, hlast⟩ done op' hpre => ?_, fun hall => ⟨fun done op' hpre => ?_, ?_⟩⟩
    · rcases prefix_concat_iff.mp hpre with heq | hpre
      · obtain ⟨rfl, hop⟩ := append_inj' heq rfl
        rwa [singleton_inj.mp hop]
      · exact hdone done op' hpre
    · exact hall done op' (hpre.trans (prefix_append _ _))
    · exact hall ops op (prefix_refl _)

/-- The first packet is queued. The second is sent when the receiver is ready and is taken first. -/
theorem packet_overtakes :
    (plainRun [.send ⟨0, 0, 0, [1], false⟩ false 0 [],
      .send ⟨0, 0, 0, [2], false⟩ true 1 [1]]).overtaking = [⟨1, 0, 0, [2], false⟩] := by decide

end QemuVmi.Net
