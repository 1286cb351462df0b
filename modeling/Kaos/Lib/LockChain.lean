import Mathlib.Order.WellFounded
import Mathlib.Data.Fintype.Card
import Mathlib.Data.Fintype.EquivFin
import Kaos.Lib.OrderedMap
import Kaos.Lib.Run

/-! Locks made of chains: each acquisition of a key waits for the one before it, and the last
acquisition of a key is its tail until it is cleaned up. -/
namespace Kaos.Lib

open List

/-- `cleaned` is the time between the removal of the tail and the end of the acquisition. -/
inductive LinkStatus
  | waiting
  | running
  | cleaned
  | settled
  deriving DecidableEq

/-- The work of a link is done or does not count any more. -/
def LinkStatus.isOver : LinkStatus → Bool
  | .cleaned | .settled => true
  | _ => false

structure Link (κ β : Type*) where
  key : κ
  previous : Option ℕ
  status : LinkStatus := .waiting
  work : β

structure LockChains (κ β : Type*) where
  tails : OrderedMap κ ℕ := .empty
  links : List (Link κ β) := []

namespace LockChains

variable {κ β : Type*}

/-- Whether the link that a link waits for has settled. -/
def isFree (c : LockChains κ β) (link : Link κ β) : Bool :=
  match link.previous with
  | none => true
  | some m => (c.links[m]?).any fun link' => link'.status = .settled

def start (c : LockChains κ β) (k : ℕ) (link : Link κ β) (work : β) : LockChains κ β :=
  { c with links := c.links.set k { link with status := .running, work } }

def settle (c : LockChains κ β) (k : ℕ) (link : Link κ β) : LockChains κ β :=
  { c with links := c.links.set k { link with status := .settled } }

section Untailed

variable {c : LockChains κ β} {k : ℕ} {link link' : Link κ β}

theorem isFree_iff : c.isFree link = true ↔
    ∀ m, link.previous = some m → ∃ link', c.links[m]? = some link' ∧ link'.status = .settled := by
  unfold isFree
  cases hp : link.previous with
  | none => simp
  | some m => simp [Option.any_eq_true]

theorem getElem?_set_link {new : Link κ β} (hk : c.links[k]? = some link) :
    (c.links.set k new)[k]? = some new := by
  obtain ⟨hlt, -⟩ := List.getElem?_eq_some_iff.mp hk
  rw [List.getElem?_set_self hlt]

/-- Where a link was there is one, the same unless it is the replaced one. -/
theorem exists_getElem?_set (hk : c.links[k]? = some link) (new : Link κ β) {j : ℕ}
    (hj : c.links[j]? = some link') : ∃ link'' : Link κ β,
      (c.links.set k new)[j]? = some link'' ∧
        ((j = k ∧ link' = link ∧ link'' = new) ∨ (j ≠ k ∧ link'' = link')) := by
  by_cases hjk : j = k
  · subst hjk
    rw [hk, Option.some.injEq] at hj
    exact ⟨new, getElem?_set_link hk, .inl ⟨rfl, hj.symm, rfl⟩⟩
  refine ⟨link', ?_, .inr ⟨hjk, rfl⟩⟩
  rw [getElem?_set_ne (Ne.symm hjk), hj]

end Untailed

variable [DecidableEq κ]

/-- A new link waits for the tail of its key. -/
abbrev newLink (c : LockChains κ β) (key : κ) (work : β) : Link κ β :=
  { key, previous := c.tails.get? key, work }

/-- The new link is the tail of its key from now on. -/
def push (c : LockChains κ β) (key : κ) (work : β) : LockChains κ β :=
  { tails := c.tails.set key c.links.length
    links := c.links ++ [c.newLink key work] }

/-- The tail goes only if it is still this link. -/
def clean (c : LockChains κ β) (k : ℕ) (link : Link κ β) (work : β) : LockChains κ β :=
  { tails := if c.tails.get? link.key = some k then c.tails.delete link.key else c.tails
    links := c.links.set k { link with status := .cleaned, work } }

/-- What the chains are at all times. -/
structure Chained (c : LockChains κ β) : Prop where
  tail : ∀ key (k : ℕ), c.tails.get? key = some k →
    ∃ link : Link κ β, c.links[k]? = some link ∧ link.key = key ∧ link.status.isOver = false ∧
      ∀ (j : ℕ) (link' : Link κ β), c.links[j]? = some link' → link'.key = key → j ≤ k
  free : ∀ key, c.tails.get? key = none →
    ∀ (k : ℕ) (link : Link κ β), c.links[k]? = some link → link.key = key → link.status.isOver = true
  previous : ∀ (k : ℕ) (link : Link κ β) (m : ℕ), c.links[k]? = some link → link.previous = some m →
    m < k ∧ ∃ link' : Link κ β, c.links[m]? = some link' ∧ link'.key = link.key
  chain : ∀ (j k : ℕ) (link link' : Link κ β), c.links[j]? = some link → c.links[k]? = some link' →
    link.key = link'.key → j < k → link.status.isOver = false →
    ∃ m, link'.previous = some m ∧ j ≤ m
  started : ∀ (k : ℕ) (link : Link κ β), c.links[k]? = some link → link.status ≠ .waiting → c.isFree link = true

variable {c : LockChains κ β} {k j : ℕ} {link link' : Link κ β} {key : κ} {work : β}

theorem chained_empty : Chained ({} : LockChains κ β) := by
  refine ⟨?_, ?_, ?_, ?_, ?_⟩ <;> nofun

/-- Once a link has started, the earlier links of its key are over. -/
theorem Chained.isOver_of_started (h : Chained c) (hk : c.links[k]? = some link)
    (hs : link.status ≠ .waiting) (hj : c.links[j]? = some link') (hkey : link'.key = link.key)
    (hjk : j < k) : link'.status.isOver = true := by
  induction k using Nat.strongRecOn generalizing link with
  | _ k ih =>
    by_contra ho
    obtain ⟨m, hp, hjm⟩ := h.chain j k link' link hj hk hkey hjk (by simpa using ho)
    obtain ⟨hmk, linkm, hm, hkeym⟩ := h.previous k link m hk hp
    obtain ⟨linkm', hm', hset⟩ := isFree_iff.mp (h.started k link hk hs) m hp
    rw [hm, Option.some.injEq] at hm'
    subst hm'
    rcases Nat.eq_or_lt_of_le hjm with rfl | hlt
    · rw [hj, Option.some.injEq] at hm
      subst hm
      rw [hset] at ho
      exact ho rfl
    apply ho
    apply ih m hmk hm ?_ (hkey.trans hkeym.symm) hlt
    rw [hset]
    exact nofun

/-- Two links of one key that both run are one link. -/
theorem Chained.eq_of_running (h : Chained c) (hk : c.links[k]? = some link)
    (hj : c.links[j]? = some link') (hkey : link.key = link'.key) (hrk : link.status = .running)
    (hrj : link'.status = .running) : k = j := by
  rcases Nat.lt_trichotomy k j with hlt | heq | hlt
  · have ho := h.isOver_of_started hj (by rw [hrj]; exact LinkStatus.noConfusion) hk hkey hlt
    rw [hrk] at ho
    cases ho
  · exact heq
  have ho := h.isOver_of_started hk (by rw [hrk]; exact LinkStatus.noConfusion) hj hkey.symm hlt
  rw [hrj] at ho
  cases ho

theorem links_push : (c.push key work).links = c.links ++ [c.newLink key work] := rfl

/-- A link after a push is an old one or the new one. -/
theorem push_cases (hk : (c.push key work).links[k]? = some link) :
    (c.links[k]? = some link ∧ k < c.links.length) ∨
      (k = c.links.length ∧ link = c.newLink key work) := by
  rcases Nat.lt_or_ge k c.links.length with hlt | hge
  · left
    rw [links_push, getElem?_append_left hlt] at hk
    exact ⟨hk, hlt⟩
  right
  rw [links_push, List.getElem?_append_right hge] at hk
  obtain ⟨hzero, heq⟩ := List.getElem?_eq_some_iff.mp hk
  have hlen : k - c.links.length < 1 := hzero
  have hk0 : k - c.links.length = 0 := by omega
  refine ⟨by omega, ?_⟩
  simp only [hk0, getElem_cons_zero] at heq
  exact heq.symm

theorem getElem?_push (hk : c.links[k]? = some link) : (c.push key work).links[k]? = some link := by
  obtain ⟨hlt, -⟩ := List.getElem?_eq_some_iff.mp hk
  rw [links_push, List.getElem?_append_left hlt, hk]

theorem getElem?_push_length : (c.push key work).links[c.links.length]? =
    some (c.newLink key work) := by
  rw [links_push, getElem?_append_right le_rfl, Nat.sub_self]
  rfl

section

variable {started : β} {old : Link κ β} {i : ℕ}

/-- The links once one has started and a new one is made. -/
theorem start_push_cases (hk : c.links[k]? = some link)
    (hi : ((c.push key work).start k link started).links[i]? = some link') :
    (∃ old : Link κ β, c.links[i]? = some old ∧ ((i ≠ k ∧ link' = old) ∨
      (i = k ∧ old = link ∧ link' = { link with status := .running, work := started }))) ∨
    (i = c.links.length ∧ link' = c.newLink key work) := by
  rcases getElem?_set_cases hi with ⟨hne, hi⟩ | ⟨rfl, rfl⟩
  · rcases push_cases hi with ⟨hi, -⟩ | hnew
    · exact .inl ⟨link', hi, .inl ⟨hne, rfl⟩⟩
    · exact .inr hnew
  · exact .inl ⟨link, hk, .inr ⟨rfl, rfl, rfl⟩⟩

theorem exists_start_push (hk : c.links[k]? = some link) (hi : c.links[i]? = some old) :
    ∃ link' : Link κ β, ((c.push key work).start k link started).links[i]? = some link' ∧
      ((i = k ∧ old = link ∧ link' = { link with status := .running, work := started }) ∨
        (i ≠ k ∧ link' = old)) :=
  exists_getElem?_set (getElem?_push hk) { link with status := .running, work := started }
    (getElem?_push hi)

theorem start_push_new (hk : c.links[k]? = some link) :
    ((c.push key work).start k link started).links[c.links.length]? =
      some (c.newLink key work) := by
  rw [start, getElem?_set_ne (Nat.ne_of_lt (List.getElem?_eq_some_iff.mp hk).1),
    getElem?_push_length]

end

theorem isFree_push (h : c.isFree link = true) : (c.push key work).isFree link = true := by
  rw [isFree_iff] at h ⊢
  intro m hm
  obtain ⟨link', hlink', hset⟩ := h m hm
  exact ⟨link', getElem?_push hlink', hset⟩

theorem chained_push (h : Chained c) : Chained (c.push key work) := by
  constructor
  · intro key' k htail
    by_cases hkey : key' = key
    · subst hkey
      have hk : k = c.links.length := by
        have hset : (c.push key' work).tails.get? key' = some c.links.length :=
          OrderedMap.get?_set_self
        rw [htail, Option.some.injEq] at hset
        exact hset
      subst hk
      refine ⟨_, getElem?_push_length, rfl, rfl, ?_⟩
      intro j link' hj _
      rcases push_cases hj with ⟨-, hlt⟩ | ⟨rfl, -⟩
      · exact hlt.le
      · exact le_rfl
    have hget : c.tails.get? key' = some k := by
      rw [← htail]
      exact (OrderedMap.get?_set_of_ne hkey).symm
    obtain ⟨link, hlink, hk, ho, hl⟩ := h.tail key' k hget
    refine ⟨link, getElem?_push hlink, hk, ho, ?_⟩
    intro j link' hj hkey'
    rcases push_cases hj with ⟨hold, -⟩ | ⟨-, rfl⟩
    · exact hl j link' hold hkey'
    · exact absurd hkey'.symm hkey
  · intro key' htail k link hk hkey'
    have hne : key' ≠ key := by
      rintro rfl
      have hset : (c.push key' work).tails.get? key' = some c.links.length :=
        OrderedMap.get?_set_self
      rw [htail] at hset
      cases hset
    have hget : c.tails.get? key' = none := by
      rw [← htail]
      exact (OrderedMap.get?_set_of_ne hne).symm
    rcases push_cases hk with ⟨hold, -⟩ | ⟨-, rfl⟩
    · exact h.free key' hget k link hold hkey'
    · exact absurd hkey'.symm hne
  · intro k link m hk hp
    rcases push_cases hk with ⟨hold, -⟩ | ⟨rfl, rfl⟩
    · obtain ⟨hmk, link', hm, hkey'⟩ := h.previous k link m hold hp
      exact ⟨hmk, link', getElem?_push hm, hkey'⟩
    obtain ⟨link', hm, hkey', -, -⟩ := h.tail key m hp
    obtain ⟨hlt, -⟩ := List.getElem?_eq_some_iff.mp hm
    exact ⟨hlt, link', getElem?_push hm, hkey'⟩
  · intro j k link link' hj hk hkey' hjk ho
    rcases push_cases hk with ⟨hkold, hklt⟩ | ⟨rfl, rfl⟩
    · rcases push_cases hj with ⟨hjold, -⟩ | ⟨rfl, -⟩
      · exact h.chain j k link link' hjold hkold hkey' hjk ho
      · omega
    rcases push_cases hj with ⟨hjold, -⟩ | ⟨rfl, -⟩
    · -- an unfinished link of the key makes the key have a tail, and no link is past the tail
      cases htail : c.tails.get? key with
      | none =>
        have hf := h.free key htail j link hjold hkey'
        rw [ho] at hf
        cases hf
      | some m =>
        obtain ⟨-, -, -, -, hl⟩ := h.tail key m htail
        exact ⟨m, htail, hl j link hjold hkey'⟩
    · omega
  intro k link hk hs
  rcases push_cases hk with ⟨hold, -⟩ | ⟨-, rfl⟩
  · exact isFree_push (h.started k link hold hs)
  · exact absurd rfl hs

section

variable (h : Chained c) (hk : c.links[k]? = some link)
include h hk

/-- When the last link of a key has its turn, the others of the key are over. -/
theorem Chained.isOver_of_last {i : ℕ} {link' : Link κ β} (hf : c.isFree link = true)
    (htail : c.tails.get? link.key = some k) (hi : c.links[i]? = some link')
    (hkey : link'.key = link.key) (hne : i ≠ k) : link'.status.isOver = true := by
  obtain ⟨-, -, -, -, hl⟩ := h.tail link.key k htail
  have hle := hl i link' hi hkey
  have hlt : i < k := by omega
  by_contra hnot
  obtain ⟨m, hm, him⟩ := h.chain i k link' link hi hk hkey hlt (by simpa using hnot)
  apply hnot
  obtain ⟨hmk, linkm, hm', hkeym⟩ := h.previous k link m hk hm
  obtain ⟨linkm', hm'', hst⟩ := isFree_iff.mp hf m hm
  rw [hm', Option.some.injEq] at hm''
  subst hm''
  rcases Nat.eq_or_lt_of_le him with rfl | hlt'
  · rw [hi, Option.some.injEq] at hm'
    subst hm'
    rw [hst]
    rfl
  apply h.isOver_of_started hm' ?_ hi (hkey.trans hkeym.symm) hlt'
  rw [hst]
  rintro ⟨⟩

/-- A link of the same key and predecessor takes the place of one whose status is not past its
own; whether it is a tail depends on whether it is over. -/
theorem Chained.replace (new : Link κ β)
    {tails : OrderedMap κ ℕ} (hkey : new.key = link.key) (hp : new.previous = link.previous)
    (hset : link.status = .settled → new.status = .settled)
    (ho : link.status.isOver = true → new.status.isOver = true)
    (hfr : new.status ≠ .waiting → c.isFree link = true)
    (htails : tails = if new.status.isOver = true ∧ c.tails.get? link.key = some k
      then c.tails.delete link.key else c.tails) :
    Chained { tails, links := c.links.set k new } := by
  have hold : ∀ i link', c.links[i]? = some link' →
      ∃ link'' : Link κ β, (c.links.set k new)[i]? = some link'' ∧ link''.key = link'.key ∧
        link''.previous = link'.previous ∧ (link'.status = .settled → link''.status = .settled) ∧
        (i ≠ k → link'' = link') := by
    intro i link' hi
    by_cases hik : i = k
    · subst hik
      rw [hk, Option.some.injEq] at hi
      subst hi
      exact ⟨new, getElem?_set_link hk, hkey, hp, hset, fun hne => absurd rfl hne⟩
    refine ⟨link', ?_, rfl, rfl, id, fun _ => rfl⟩
    rw [getElem?_set_ne (Ne.symm hik), hi]
  have hb : ∀ (i : ℕ) (link' : Link κ β), (c.links.set k new)[i]? = some link' →
      ∃ link'' : Link κ β, c.links[i]? = some link'' ∧ link'.key = link''.key ∧
        link'.previous = link''.previous ∧
        (link''.status.isOver = true → link'.status.isOver = true) ∧
        (link'.status ≠ .waiting → c.isFree link'' = true) := by
    intro i link' hi
    rcases getElem?_set_cases hi with ⟨-, hi⟩ | ⟨rfl, rfl⟩
    · exact ⟨link', hi, rfl, rfl, id, h.started i link' hi⟩
    · exact ⟨link, hk, hkey, hp, ho, hfr⟩
  constructor
  · intro key' i htail
    have htail' : c.tails.get? key' = some i ∧ ¬ (new.status.isOver = true ∧ i = k) := by
      subst htails
      by_cases hg : new.status.isOver = true ∧ c.tails.get? link.key = some k
      · rw [if_pos hg, OrderedMap.get?_delete] at htail
        split at htail
        · cases htail
        · next hne =>
          refine ⟨htail, ?_⟩
          rintro ⟨-, rfl⟩
          obtain ⟨link', hi, hkey', -, -⟩ := h.tail key' i htail
          rw [hk, Option.some.injEq] at hi
          subst hi
          exact hne hkey'.symm
      rw [if_neg hg] at htail
      refine ⟨htail, ?_⟩
      rintro ⟨hnew, rfl⟩
      obtain ⟨link', hi, hkey', -, -⟩ := h.tail key' i htail
      rw [hk, Option.some.injEq] at hi
      subst hi
      exact hg ⟨hnew, hkey'.symm ▸ htail⟩
    obtain ⟨link', hi, hkey', hnot, hl⟩ := h.tail key' i htail'.1
    obtain ⟨link'', hi', hkey'', -, -, hsa⟩ := hold i link' hi
    refine ⟨link'', hi', hkey''.trans hkey', ?_, ?_⟩
    · by_cases hik : i = k
      · subst hik
        rw [getElem?_set_link hk, Option.some.injEq] at hi'
        subst hi'
        simpa using htail'.2
      rw [hsa hik]
      exact hnot
    · intro j linkj hj hkeyj
      obtain ⟨linkj', hj', hkeyj', -, -, -⟩ := hb j linkj hj
      exact hl j linkj' hj' (hkeyj'.symm.trans hkeyj)
  · intro key' htail i link' hi hkey'
    subst htails
    by_cases hg : new.status.isOver = true ∧ c.tails.get? link.key = some k
    · rw [if_pos hg] at htail
      by_cases hkk : key' = link.key
      · -- the link that goes is the last of its key, so the others are over
        subst hkk
        rcases getElem?_set_cases hi with ⟨hik, hiold⟩ | ⟨rfl, rfl⟩
        · refine h.isOver_of_last hk (hfr ?_) hg.2 hiold hkey' hik
          intro hwait
          rw [hwait] at hg
          cases hg.1
        · exact hg.1
      · rw [OrderedMap.get?_delete_of_ne hkk] at htail
        obtain ⟨link'', hi', hk', -, hov, -⟩ := hb i link' hi
        exact hov (h.free key' htail i link'' hi' (hk'.symm.trans hkey'))
    · rw [if_neg hg] at htail
      obtain ⟨link'', hi', hk', -, hov, -⟩ := hb i link' hi
      exact hov (h.free key' htail i link'' hi' (hk'.symm.trans hkey'))
  · intro i link' m hi hm
    obtain ⟨link'', hi', hk', hp', -, -⟩ := hb i link' hi
    obtain ⟨hmi, linkm, hlm, hkm⟩ := h.previous i link'' m hi' (hp'.symm.trans hm)
    obtain ⟨linkm', hlm', hkm', -, -, -⟩ := hold m linkm hlm
    exact ⟨hmi, linkm', hlm', hkm'.trans (hkm.trans hk'.symm)⟩
  · intro i j link' link'' hi hj hkk hij hnot
    obtain ⟨linki, hi', hki, -, hov, -⟩ := hb i link' hi
    obtain ⟨linkj, hj', hkj, hpj, -, -⟩ := hb j link'' hj
    have hnot' : linki.status.isOver = false := by
      by_contra ho'
      rw [hov (by simpa using ho')] at hnot
      cases hnot
    obtain ⟨m, hm, him⟩ := h.chain i j linki linkj hi' hj' (hki.symm.trans (hkk.trans hkj)) hij hnot'
    exact ⟨m, hpj.trans hm, him⟩
  intro i link' hi hs
  obtain ⟨link'', hi', -, hp', -, hfr'⟩ := hb i link' hi
  have hf := isFree_iff.mp (hfr' hs)
  rw [isFree_iff]
  intro m hm
  obtain ⟨linkm, hlm, hst⟩ := hf m (hp'.symm.trans hm)
  obtain ⟨linkm', hlm', -, -, hst', -⟩ := hold m linkm hlm
  exact ⟨linkm', hlm', hst' hst⟩

theorem chained_start (hwait : link.status = .waiting)
    (hf : c.isFree link = true) : Chained (c.start k link work) := by
  apply h.replace hk { link with status := .running, work } rfl rfl
  · rw [hwait]
    exact nofun
  · rw [hwait]
    exact nofun
  · exact fun _ => hf
  · rfl

theorem chained_clean (hrun : link.status = .running) : Chained (c.clean k link work) := by
  apply h.replace hk { link with status := .cleaned, work } rfl rfl
  · rw [hrun]
    exact nofun
  · exact fun _ => rfl
  · intro _
    apply h.started k link hk
    rw [hrun]
    exact nofun
  · simp [LinkStatus.isOver]

theorem chained_settle (hc : link.status = .cleaned) : Chained (c.settle k link) := by
  have hnot : c.tails.get? link.key ≠ some k := by
    intro htail
    obtain ⟨link', hk', -, ho, -⟩ := h.tail link.key k htail
    rw [hk, Option.some.injEq] at hk'
    subst hk'
    rw [hc] at ho
    cases ho
  apply h.replace hk { link with status := .settled } rfl rfl
  · exact fun _ => rfl
  · exact fun _ => rfl
  · intro _
    apply h.started k link hk
    rw [hc]
    exact nofun
  · simp [hnot]

end

/-- Without an unfinished link there is no tail. -/
theorem Chained.tails_eq_empty (h : Chained c)
    (ho : ∀ (k : ℕ) (link : Link κ β), c.links[k]? = some link → link.status.isOver = true) :
    c.tails.entries = [] := by
  rw [eq_nil_iff_forall_not_mem]
  rintro ⟨key, k⟩ hmem
  obtain ⟨link, hk, -, hnot, -⟩ := h.tail key k (OrderedMap.get?_eq_some.mpr hmem)
  rw [ho k link hk] at hnot
  cases hnot

/-- Keys taken upwards cannot deadlock: if each link that is not settled waits for its predecessor
or for an unsettled link of a larger key, there is none. -/
theorem Chained.all_settled (h : Chained c) (lt : κ → κ → Prop)
    (ht : ∀ a b d, lt a b → lt b d → lt a d) (hirr : ∀ a, ¬ lt a a)
    (hbloc : ∀ (k : ℕ) (link : Link κ β), c.links[k]? = some link → link.status ≠ .settled →
      c.isFree link = false ∨
        ∃ (m : ℕ) (link' : Link κ β), c.links[m]? = some link' ∧ link'.status ≠ .settled ∧
          lt link.key link'.key) :
    ∀ link ∈ c.links, link.status = .settled := by
  -- `m` comes below `k` if its key is larger, or the same and `m` is the older link
  let below : Fin c.links.length → Fin c.links.length → Prop := fun m k =>
    lt c.links[k].key c.links[m].key ∨ (c.links[k].key = c.links[m].key ∧ m < k)
  have hbtr : IsTrans _ below := by
    constructor
    rintro a b d (hab | ⟨hab, hab'⟩) (hbd | ⟨hbd, hbd'⟩)
    · exact .inl (ht _ _ _ hbd hab)
    · exact .inl (hbd ▸ hab)
    · exact .inl (hab ▸ hbd)
    · exact .inr ⟨hbd.trans hab, hab'.trans hbd'⟩
  have hbir : Std.Irrefl below := by
    constructor
    rintro a (ha | ⟨-, ha⟩)
    · exact hirr _ ha
    · exact lt_irrefl _ ha
  have hwf : WellFounded below := Finite.wellFounded_of_trans_of_irrefl below
  by_contra hnot
  obtain ⟨link, hmem, hlink⟩ : ∃ link ∈ c.links, link.status ≠ .settled := by
    simpa using hnot
  obtain ⟨k, hk, hget⟩ := List.mem_iff_getElem.mp hmem
  let unsettled : Set (Fin c.links.length) := fun k => c.links[k].status ≠ .settled
  have hne : unsettled.Nonempty := by
    refine ⟨⟨k, hk⟩, ?_⟩
    change c.links[k].status ≠ .settled
    rw [hget]
    exact hlink
  obtain ⟨m, hm, hmin⟩ := hwf.has_min unsettled hne
  have hgetm : c.links[m.val]? = some c.links[m] := List.getElem?_eq_getElem m.isLt
  rcases hbloc m c.links[m] hgetm hm with hwaits | ⟨j, link', hj, hstatus, hlt⟩
  · obtain ⟨i, hp, hun⟩ : ∃ i, c.links[m].previous = some i ∧
        ∀ link', c.links[i]? = some link' → link'.status ≠ .settled := by
      by_contra hf
      rw [Bool.eq_false_iff] at hwaits
      apply hwaits
      rw [isFree_iff]
      intro i hi
      by_contra hall
      exact hf ⟨i, hi, fun link' hlink' hst => hall ⟨link', hlink', hst⟩⟩
    obtain ⟨him, link', hi, hkey⟩ := h.previous m _ i hgetm hp
    obtain ⟨hlt, hgeti⟩ := List.getElem?_eq_some_iff.mp hi
    apply hmin ⟨i, hlt⟩
    · change c.links[i].status ≠ .settled
      rw [hgeti]
      exact hun link' hi
    right
    refine ⟨?_, him⟩
    change c.links[m].key = c.links[i].key
    rw [hgeti, hkey]
  obtain ⟨hlen, hgetj⟩ := List.getElem?_eq_some_iff.mp hj
  apply hmin ⟨j, hlen⟩
  · change c.links[j].status ≠ .settled
    rw [hgetj]
    exact hstatus
  left
  change lt c.links[m].key c.links[j].key
  rw [hgetj]
  exact hlt

end LockChains

end Kaos.Lib
