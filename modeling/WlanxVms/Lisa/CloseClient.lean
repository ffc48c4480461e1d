import Mathlib.Data.List.Nodup
import WlanxVms.Lisa.Server

/-!
# Which client `lisa_close_client` removes

The search leaves `i` one behind the entry that it found, and the entries are shifted from `i + 1` on.
So the table loses the entry after the closed one, or the last one if there is none after it; a
descriptor that is not in the table costs the last entry too.
-/

namespace WlanxVms
namespace Lisa
variable {l l' : Lisa} {i : Nat}

/-- The closed descriptor is taken out, and nothing else. -/
structure ClosesExactly (l l' : Lisa) : Prop where
  present : l.clientFd ∈ l.table → l'.table = l.table.erase l.clientFd ∧ l'.numClients = l.numClients - 1
  absent : l.clientFd ∉ l.table → l'.table = l.table ∧ l'.numClients = l.numClients

/-! ### The search -/

theorem closeScan_found (fuel i : Nat) : l.closeScan fuel i true = i := by
  cases fuel with
  | zero => rfl
  | succ fuel => exact if_neg (by simp)

/-- The search ends one behind the first entry with the descriptor, or at the end of the table. -/
theorem closeScan_cases {fuel : Nat} (hfuel : l.numClients.toNat ≤ i + fuel) (hi : i ≤ l.numClients.toNat)
    (hbefore : ∀ j, j < i → l.clientFds j ≠ l.clientFd) :
    (∃ p, p < l.numClients.toNat ∧ l.clientFds p = l.clientFd ∧ l.closeScan fuel i false = p + 1) ∨
      (∀ j, j < l.numClients.toNat → l.clientFds j ≠ l.clientFd) ∧ l.closeScan fuel i false = l.numClients.toNat := by
  induction fuel generalizing i with
  | zero =>
    have hi : i = l.numClients.toNat := by omega
    subst hi
    exact .inr ⟨hbefore, rfl⟩
  | succ fuel ih =>
    unfold closeScan
    by_cases hlt : i < l.numClients.toNat
    · rw [if_pos ⟨hlt, rfl⟩]
      by_cases hfd : l.clientFds i = l.clientFd
      · rw [decide_eq_true hfd, closeScan_found]
        exact .inl ⟨i, hlt, hfd, rfl⟩
      · rw [decide_eq_false hfd]
        refine ih (by omega) hlt fun j hj => ?_
        rcases Nat.lt_succ_iff_lt_or_eq.1 hj with hj | rfl
        · exact hbefore j hj
        · exact hfd
    · have hi : i = l.numClients.toNat := by omega
      subst hi
      rw [if_neg (by omega)]
      exact .inr ⟨hbefore, rfl⟩

/-! ### The call -/

theorem numClients_lisaCloseClient (hstate : 0 ≤ l.state.code)
    (hclient : LisaState.connected.code ≤ l.clientState.code) :
    l.lisaCloseClient.numClients = l.numClients - 1 := by
  rw [lisaCloseClient, if_neg (Int.not_lt.2 hstate), if_neg (Int.not_lt.2 hclient)]

theorem table_lisaCloseClient (hstate : 0 ≤ l.state.code)
    (hclient : LisaState.connected.code ≤ l.clientState.code) :
    l.lisaCloseClient.table =
      (l.clientFds.shiftDown (l.closeScan l.numClients.toNat 0 false + 1)
        (l.numClients.toNat - (l.closeScan l.numClients.toNat 0 false + 1))).read 0 (l.numClients.toNat - 1) := by
  have hn : (l.numClients - 1).toNat = l.numClients.toNat - 1 := by omega
  rw [lisaCloseClient, if_neg (Int.not_lt.2 hstate), if_neg (Int.not_lt.2 hclient), ← hn]
  rfl

/-- A client that is found loses the entry after it, the last one its own. -/
theorem table_lisaCloseClient_cases (hstate : 0 ≤ l.state.code)
    (hclient : LisaState.connected.code ≤ l.clientState.code) :
    (∃ p, ∃ h : p < l.table.length, l.table[p] = l.clientFd ∧
      (p + 1 < l.table.length ∧ l.lisaCloseClient.table = l.table.eraseIdx (p + 1) ∨
        p + 1 = l.table.length ∧ l.lisaCloseClient.table = l.table.eraseIdx p)) ∨
      l.clientFd ∉ l.table := by
  have htable := table_lisaCloseClient hstate hclient
  have hlen := length_table l
  rcases @closeScan_cases l 0 l.numClients.toNat (by omega) (Nat.zero_le _) nofun with
    ⟨p, hp, hfd, hscan⟩ | ⟨hnone, -⟩
  · refine .inl ⟨p, by omega, (getElem_table _).trans hfd, ?_⟩
    rw [hscan] at htable
    by_cases hlast : p + 1 < l.numClients.toNat
    · exact .inl ⟨by omega, htable.trans (Mem.read_shiftDown l.clientFds hlast)⟩
    · refine .inr ⟨by omega, ?_⟩
      have hn : l.numClients.toNat = p + 1 := by omega
      rw [htable, hn, Nat.sub_eq_zero_of_le (by omega), List.eraseIdx_eq_take_drop_succ,
        List.drop_of_length_le (by omega), List.append_nil, Lisa.table, hn, Mem.take_read _ _ (Nat.le_succ p)]
      rfl
  · refine .inr fun hmem => ?_
    obtain ⟨p, hp, hfd⟩ := List.getElem_of_mem hmem
    exact hnone p (by omega) ((getElem_table hp).symm.trans hfd)

/-- `lisa_close_client` takes out the closed descriptor if and only if that is the last one. -/
theorem closeClient_exact_iff (l : Lisa) (hnodup : l.table.Nodup) (hstate : 0 ≤ l.state.code)
    (hclient : LisaState.connected.code ≤ l.clientState.code) :
    ClosesExactly l l.lisaCloseClient ↔ l.table.getLast? = some l.clientFd := by
  have hnum := numClients_lisaCloseClient hstate hclient
  rcases table_lisaCloseClient_cases hstate hclient with ⟨p, hp, hfd, hcase⟩ | habsent
  · have hmem : l.clientFd ∈ l.table := hfd ▸ List.getElem_mem hp
    have herase : l.table.erase l.clientFd = l.table.eraseIdx p := by
      rw [← hfd, hnodup.erase_getElem]
    have hlast : l.table.getLast? = some l.clientFd ↔ p + 1 = l.table.length := by
      rw [List.getLast?_eq_getElem?, ← hfd, ← List.getElem?_eq_getElem hp,
        List.getElem?_inj (by omega) hnodup]
      omega
    rw [hlast]
    rcases hcase with ⟨hlt, htable⟩ | ⟨heq, htable⟩
    · refine iff_of_false (fun h => ?_) (Nat.ne_of_lt hlt)
      have h := (h.present hmem).1
      rw [htable, herase] at h
      -- the entries `p` of the two lists are the closed descriptor and the one after it
      have hget := congrArg (fun t => t[p]?) h
      simp only [List.getElem?_eraseIdx_of_lt (Nat.lt_succ_self p), List.getElem?_eraseIdx_of_ge (Nat.le_refl p)] at hget
      have hsame := (List.getElem?_inj hp hnodup).1 hget
      omega
    · exact iff_of_true ⟨fun _ => ⟨htable.trans herase.symm, hnum⟩, fun h => absurd hmem h⟩ heq
  · refine iff_of_false (fun h => ?_) fun h => habsent (List.mem_of_getLast? h)
    have h := (h.absent habsent).2
    omega

/-- A server whose clients are `clients`, with `clientFd` as the last one it received from -/
def serving (clients : List Int) (clientFd : Int) : Lisa :=
  { fd := 3, clientFd, clientFds := (Mem.fill 0).write 0 clients, thisFd := clientFd, numClients := clients.length,
    state := .accepted, clientState := .gotData, type := .tcp, clsvr := .server, vsock := false }

theorem closeClient_exact_iff_last :
    ClosesExactly (serving [5, 6, 7] 7) (serving [5, 6, 7] 7).lisaCloseClient ↔
      (serving [5, 6, 7] 7).table.getLast? = some 7 :=
  closeClient_exact_iff (serving [5, 6, 7] 7) (by decide) (by decide) (by decide)

/-- Closing the first of three clients drops the second; closing one that is not there drops the last. -/
theorem not_closeClient_exact :
    (serving [5, 6, 7] 5).lisaCloseClient.table = [5, 7] ∧
    ¬ClosesExactly (serving [5, 6, 7] 5) (serving [5, 6, 7] 5).lisaCloseClient ∧
    (serving [5, 6, 7] 9).lisaCloseClient.table = [5, 6] ∧
    ¬ClosesExactly (serving [5, 6, 7] 9) (serving [5, 6, 7] 9).lisaCloseClient := by
  refine ⟨by decide, fun h => ?_, by decide, fun h => ?_⟩
  · exact absurd (h.present (by decide)).1 (by decide)
  · exact absurd (h.absent (by decide)).1 (by decide)

end Lisa
end WlanxVms
