import Mathlib

/-!
# Circular doubly linked lists

A store of nodes with a forward and a backward link each. `Ring links head l` says that the
links lead from `head` through the nodes of `l`, in this order, back to `head`, and the other
way round.

Results:
1. `ring_init`: a node that is linked to itself is an empty ring.
2. `Ring.addTail`: linking a new node in between the last node and the head appends it.
-/

namespace CircularList

open Function List

variable {α : Type*}

structure Links (α : Type*) where
  next : α → α
  prev : α → α

/-- `b` follows `a`, and `a` precedes `b`. -/
def Links.Joined (links : Links α) (a b : α) : Prop := links.next a = b ∧ links.prev b = a

/-- The nodes are all different, and linked in this order, with the head behind the last one. -/
structure Ring (links : Links α) (head : α) (l : List α) : Prop where
  nodup : (head :: l).Nodup
  joined : (head :: l ++ [head]).IsChain links.Joined

section
variable [DecidableEq α] (links : Links α)

def Links.setNext (a b : α) : Links α := { links with next := update links.next a b }

def Links.setPrev (a b : α) : Links α := { links with prev := update links.prev a b }

def Links.insert (new prev next : α) : Links α :=
  (((links.setPrev next new).setNext new next).setPrev new prev).setNext prev new

def Links.addTail (new head : α) : Links α := links.insert new (links.prev head) head
end

variable {links : Links α} {head : α} {l : List α}

lemma ring_init (hnext : links.next head = head) (hprev : links.prev head = head) :
    Ring links head [] :=
  ⟨nodup_singleton head,
    isChain_cons_cons.mpr ⟨⟨hnext, hprev⟩, isChain_singleton head⟩⟩

lemma Ring.getLast (h : Ring links head l) :
    (head :: l).getLast? = some (links.prev head) ∧ links.next (links.prev head) = head := by
  obtain ⟨-, -, hjoin⟩ := isChain_append.mp h.joined
  obtain ⟨a, ha⟩ : ∃ a, (head :: l).getLast? = some a := ⟨_, List.getLast?_cons⟩
  obtain ⟨hnext, hprev⟩ := hjoin a ha head rfl
  rw [hprev]
  exact ⟨ha, hnext⟩

variable [DecidableEq α]

lemma Ring.addTail (h : Ring links head l) {new : α} (hnew : new ∉ head :: l) :
    Ring (links.addTail new head) head (l ++ [new]) := by
  obtain ⟨hlast, hback⟩ := h.getLast
  have hmem := mem_of_getLast? hlast
  have hne : ∀ a ∈ head :: l, a ≠ new := fun a ha heq => hnew (heq ▸ ha)
  have hhead := hne head mem_cons_self
  constructor
  · rw [← cons_append]
    exact nodup_append.mpr ⟨h.nodup, nodup_singleton new, fun a ha b hb heq =>
      hne a ha (heq.trans (mem_singleton.mp hb))⟩
  -- the links from `head` to the last node are as before
  have hkeep : (head :: l).IsChain (links.addTail new head).Joined := by
    refine (isChain_append.mp h.joined).1.imp_of_mem_tail_imp fun a b ha hb hjoin => ?_
    have hb' : b ≠ head := fun heq => (nodup_cons.mp h.nodup).1 (heq ▸ hb)
    have ha' : a ≠ links.prev head := by
      rintro rfl
      exact hb' (hjoin.1.symm.trans hback)
    refine ⟨?_, ?_⟩
    · simp only [Links.addTail, Links.insert, Links.setNext, Links.setPrev]
      rw [update_of_ne ha', update_of_ne (hne a ha)]
      exact hjoin.1
    · simp only [Links.addTail, Links.insert, Links.setNext, Links.setPrev]
      rw [update_of_ne (hne b (mem_cons_of_mem _ hb)), update_of_ne hb']
      exact hjoin.2
  have hin : (links.addTail new head).Joined (links.prev head) new := by
    simp only [Links.Joined, Links.addTail, Links.insert, Links.setNext, Links.setPrev, update_self,
      and_self]
  have hout : (links.addTail new head).Joined new head := by
    simp only [Links.Joined, Links.addTail, Links.insert, Links.setNext, Links.setPrev]
    rw [update_of_ne (hne _ hmem).symm, update_self, update_of_ne hhead, update_self]
    exact ⟨rfl, rfl⟩
  rw [← cons_append, append_assoc]
  refine isChain_append.mpr
    ⟨hkeep, isChain_cons_cons.mpr ⟨hout, isChain_singleton _⟩, fun a ha b hb => ?_⟩
  rw [hlast] at ha
  cases ha
  cases hb
  exact hin

end CircularList
