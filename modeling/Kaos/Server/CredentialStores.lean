import Kaos.Server.Credentials

/-! What the credential stores have in common in every state of a run. -/
namespace Kaos.Server

open Kaos.Lib ConfigStorage List

namespace ServerConfig

section Steps

variable {α : Type*} {generationOf : α → ℕ} {limit generation : ℕ} {rows rows' : List α}
  {platform : Platform} {context : RequestContext} {body : Record} {request : Request}
  {operation : Operation} {storage storage' : ConfigStorage} {response : Response}

/-- Not too many rows, and all of one generation. -/
def Current (generationOf : α → ℕ) (limit generation : ℕ) (rows : List α) : Prop :=
  rows.length ≤ limit ∧ ∀ row ∈ rows, generationOf row = generation

theorem current_nil : Current generationOf limit generation [] := ⟨Nat.zero_le _, nofun⟩

theorem Current.sublist (h : Current generationOf limit generation rows)
    (hsub : rows'.Sublist rows) : Current generationOf limit generation rows' :=
  ⟨hsub.length_le.trans h.1, fun row hrow => h.2 row (hsub.mem hrow)⟩

/-- The new row may push out an old one. -/
theorem Current.push {row : α} (h : Current generationOf limit generation rows)
    (hsublist : rows'.Sublist rows) (hrow : generationOf row = generation) :
    Current generationOf limit generation ((rows' ++ [row]).rtake limit) := by
  refine ⟨length_rtake_le, fun r hr => ?_⟩
  rcases mem_append.mp (mem_of_mem_rtake hr) with hr | hr
  · exact h.2 r (hsublist.mem hr)
  · rw [mem_singleton.mp hr, hrow]

/-- The stores are within their limits, and what they hold is of the present generation. -/
structure WellKept (storage : ConfigStorage) : Prop where
  challenges : Current StoredChallenge.authGeneration MAX_SESSIONS
    storage.readAuthValues.authGeneration storage.authChallenges
  sessions : Current StoredSession.authGeneration MAX_SESSIONS
    storage.readAuthValues.authGeneration storage.authSessions
  tickets : Current StoredTicket.authGeneration MAX_TICKETS
    storage.readAuthValues.authGeneration storage.authTickets
  pairings : storage.authPairings.length ≤ MAX_PAIRINGS
  audit : storage.authAudit.length ≤ MAX_AUDIT_ENTRIES

theorem wellKept_change (h : WellKept storage)
    (hch : Change platform body context storage operation response storage') :
    WellKept storage' := by
  have hl : ∀ {α : Type} {p q : α → Bool} {rows : List α},
      ((rows.filter p).filter q).Sublist rows := filter_sublist.trans filter_sublist
  cases hch with
  | claimByDevice | claimByServer =>
    exact ⟨current_nil, current_nil, current_nil, by simp [claimedStorage, MAX_PAIRINGS],
      by simp [claimedStorage, MAX_AUDIT_ENTRIES]⟩
  | recover => exact ⟨current_nil, current_nil, current_nil, Nat.zero_le _, length_rtake_le⟩
  | changeRole | revoke =>
    exact ⟨current_nil, current_nil, current_nil, h.pairings, length_rtake_le⟩
  | createPairing => exact { h with pairings := length_rtake_le, audit := length_rtake_le }
  | pairActive =>
    exact { h with pairings := (erase_sublist.trans hl).length_le.trans h.pairings }
  | pairNew =>
    exact { h with
      pairings := (erase_sublist.trans hl).length_le.trans h.pairings
      audit := length_rtake_le }
  | challenge hvault hcl hid hdev hact hchal =>
    exact { h with challenges := h.challenges.push hl (hchal ▸ rfl) }
  | session hid hsig hchal hcl hgen hdev hv hsess =>
    exact { h with
      challenges := h.challenges.sublist hl
      sessions := h.sessions.push hl (hsess ▸ rfl) }
  | issueTicket hp hst =>
    obtain ⟨_, _, -, -, hs⟩ := bodyPrincipal_eq_some hp
    obtain ⟨_, _, -, rfl⟩ := principalForSession_eq_some hs
    exact { h with tickets := h.tickets.push hl (hst ▸ rfl) }
  | rejectTicket status error htic =>
    exact { h with tickets := h.tickets.sublist (htic.trans filter_sublist) }
  | consumeTicket => exact { h with tickets := h.tickets.sublist (erase_sublist.trans hl) }
  | rename => exact { h with audit := length_rtake_le }
  | _ => exact { h with }

/-- A request advances the generation by one if it invalidates, and leaves it alone otherwise. -/
theorem authGeneration_fetch (h : VaultBound storage) :
    (fetch platform request storage).2.readAuthValues.authGeneration =
      storage.readAuthValues.authGeneration + (invalidates platform request storage).toNat := by
  cases hinv : invalidates platform request storage with
  | true => exact authGeneration_invalidates hinv
  | false =>
    obtain ⟨response, storage', hfetch, hchange⟩ := fetch_eq platform request storage
    simp only [invalidates, hfetch] at hinv ⊢
    obtain ⟨operation, body, context⟩ := request
    cases hchange with
    | claimByDevice _ _ hcl | claimByServer _ _ hcl =>
      simp [readAuthValues, claimedStorage, h.unclaimed hcl]
    | recover | revoke => cases hinv
    | changeRole hp hid hrole htgt hch =>
      simp [devices, htgt, hch] at hinv
    | _ => rfl

end Steps

/-- In every state of every run the stores are well kept. -/
theorem stores_well_kept (platform : Platform) (requests : List Request) (n : ℕ) :
    WellKept (storageAt platform requests n) := by
  refine stateAt_invariant (P := WellKept) ?_ (fun storage request h =>
    wellKept_change h (fetch_change platform request storage)) n
  exact ⟨current_nil, current_nil, current_nil, Nat.zero_le _, Nat.zero_le _⟩

/-- The generation counts the recoveries, role changes and revocations since the start. -/
theorem generation_counts_invalidations (platform : Platform) (requests : List Request) (n : ℕ) :
    (storageAt platform requests n).readAuthValues.authGeneration =
      1 + (List.range n).countP (invalidatesAt platform requests) := by
  induction n with
  | zero => rfl
  | succ n ih =>
    rw [range_succ, countP_append, countP_singleton, ← Nat.add_assoc, ← ih, invalidatesAt]
    cases hn : requests[n]? with
    | none => rw [storageAt_succ_none hn]; rfl
    | some request =>
      rw [storageAt_succ hn, authGeneration_fetch (vaultBound_at n)]
      congr 1
      cases h : invalidates platform request (storageAt platform requests n) <;> simp [h]

end ServerConfig

end Kaos.Server
