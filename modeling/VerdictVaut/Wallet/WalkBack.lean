import VerdictVaut.Wallet.Adapters
import VerdictVaut.Shared.Fallible

set_option autoImplicit false

namespace VerdictVaut

open Pages Fallible

section Scan

variable {T δ : Type} {idOf : T → String} {fetch : String → Option String → Except ChainFault (List T × Bool)}
  {toDeposits : WatchedAddress → T → Except ChainFault (List δ)} {previous next next' : PerAddressCursor}
  {addresses : List WatchedAddress} {deposits deposits' : List δ}

def advance (idOf : T → String) (fetched : List T × Bool) (lastSeen : Option String) : Option String :=
  -- the cursor entry that a walk with this outcome leaves
  match fetched.1.head? with
  | none => lastSeen
  | some newest => if fetched.2 then some (idOf newest) else lastSeen

theorem advance_advance (fetched : List T × Bool) (lastSeen : Option String) :
    advance idOf fetched (advance idOf fetched lastSeen) = advance idOf fetched lastSeen := by
  simp only [advance]
  cases fetched.1.head? with
  | none => rfl
  | some newest => cases fetched.2 <;> rfl

structure Visit (idOf : T → String) (fetch : String → Option String → Except ChainFault (List T × Bool))
    (toDeposits : WatchedAddress → T → Except ChainFault (List δ)) (previous : PerAddressCursor)
    (watched : WatchedAddress) where
  -- one address's part of a scan: what was fetched and what the body made of it
  txs : List T
  caughtUp : Bool
  mapped : List (List δ)
  fetched : fetch watched.address (previous watched.address) = .ok (txs, caughtUp)
  handed : List.Forall₂ (fun tx found => toDeposits watched tx = .ok found) txs mapped

theorem scanAddresses_cons {watched : WatchedAddress}
    (done : scanAddresses idOf fetch toDeposits previous (watched :: addresses) deposits next = .ok (deposits', next')) :
    ∃ visit : Visit idOf fetch toDeposits previous watched,
      scanAddresses idOf fetch toDeposits previous addresses (deposits ++ visit.mapped.flatten)
        (Function.update next watched.address (advance idOf (visit.txs, visit.caughtUp) (next watched.address))) =
          .ok (deposits', next') := by
  simp only [scanAddresses, bind_eq_ok, mapM_eq_ok] at done
  obtain ⟨⟨txs, caughtUp⟩, fetched, mapped, handed, rest⟩ := done
  refine ⟨⟨txs, caughtUp, mapped, fetched, handed⟩, ?_⟩
  rw [← rest]
  congr 1
  simp only [advance]
  cases txs.head? with
  | none => exact Function.update_eq_self _ _
  | some newest =>
    cases caughtUp with
    | false => exact Function.update_eq_self _ _
    | true => rfl

theorem scanAddresses_deposits (done : scanAddresses idOf fetch toDeposits previous addresses deposits next = .ok (deposits', next')) :
    (∀ d ∈ deposits, d ∈ deposits') ∧ (∀ watched ∈ addresses, ∃ visit : Visit idOf fetch toDeposits previous watched,
        ∀ d ∈ visit.mapped.flatten, d ∈ deposits') ∧
      ∀ d ∈ deposits', d ∈ deposits ∨ ∃ watched ∈ addresses,
        ∃ visit : Visit idOf fetch toDeposits previous watched, d ∈ visit.mapped.flatten := by
  induction addresses generalizing deposits next with
  | nil =>
    simp only [scanAddresses, Except.ok.injEq, Prod.mk.injEq] at done
    obtain ⟨rfl, rfl⟩ := done
    simp
  | cons watched rest ih =>
    obtain ⟨visit, done⟩ := scanAddresses_cons done
    obtain ⟨kept, reported, only⟩ := ih done
    refine ⟨fun d member => kept d (List.mem_append_left _ member), ?_, ?_⟩
    · intro other member
      rcases List.mem_cons.mp member with rfl | member
      · exact ⟨visit, fun d found => kept d (List.mem_append_right _ found)⟩
      · exact reported other member
    · intro d member
      rcases only d member with earlier | ⟨other, watching, found⟩
      · rcases List.mem_append.mp earlier with before | here
        · exact .inl before
        · exact .inr ⟨watched, List.mem_cons_self, visit, here⟩
      · exact .inr ⟨other, List.mem_cons_of_mem _ watching, found⟩

theorem scanAddresses_unwatched {a : String}
    (done : scanAddresses idOf fetch toDeposits previous addresses deposits next = .ok (deposits', next'))
    (absent : a ∉ addresses.map WatchedAddress.address) : next' a = next a := by
  induction addresses generalizing deposits next with
  | nil =>
    simp only [scanAddresses, Except.ok.injEq, Prod.mk.injEq] at done
    rw [done.2]
  | cons watched rest ih =>
    obtain ⟨visit, done⟩ := scanAddresses_cons done
    simp only [List.map_cons, List.mem_cons, not_or] at absent
    rw [ih done absent.2, Function.update_of_ne absent.1]

theorem scanAddresses_cursor {a : String} {fetched : List T × Bool}
    (done : scanAddresses idOf fetch toDeposits previous addresses deposits next = .ok (deposits', next'))
    (member : a ∈ addresses.map WatchedAddress.address) (walked : fetch a (previous a) = .ok fetched) :
    next' a = advance idOf fetched (next a) := by
  -- several watched entries of one address leave the same cursor entry as one of them
  induction addresses generalizing deposits next with
  | nil => cases member
  | cons other rest ih =>
    obtain ⟨visit, done⟩ := scanAddresses_cons done
    have moved : other.address = a → Function.update next other.address
        (advance idOf (visit.txs, visit.caughtUp) (next other.address)) a = advance idOf fetched (next a) := by
      rintro rfl
      have same := visit.fetched
      rw [walked, Except.ok.injEq] at same
      rw [Function.update_self, same]
    by_cases again : a ∈ rest.map WatchedAddress.address
    · rw [ih done again]
      by_cases equal : other.address = a
      · rw [moved equal, advance_advance]
      · rw [Function.update_of_ne (Ne.symm equal)]
    · have head := (List.mem_cons.mp member).resolve_right again
      rw [scanAddresses_unwatched done again, moved head.symm]

theorem scanAddresses_reports
    (done : scanAddresses idOf fetch toDeposits previous addresses deposits next = .ok (deposits', next'))
    {watched : WatchedAddress} (member : watched ∈ addresses) :
    ∃ fetched, fetch watched.address (previous watched.address) = .ok fetched ∧
      ∀ tx ∈ fetched.1, ∃ found, toDeposits watched tx = .ok found ∧ ∀ d ∈ found, d ∈ deposits' := by
  obtain ⟨visit, reported⟩ := (scanAddresses_deposits done).2.1 watched member
  refine ⟨_, visit.fetched, fun tx among => ?_⟩
  obtain ⟨found, listed, made⟩ := forall₂_left visit.handed tx among
  exact ⟨found, made, fun d here => reported d (List.mem_flatten_of_mem listed here)⟩

theorem scanAddresses_origin
    (done : scanAddresses idOf fetch toDeposits previous addresses [] next = .ok (deposits', next')) {d : δ}
    (reported : d ∈ deposits') :
    ∃ watched ∈ addresses, ∃ fetched, fetch watched.address (previous watched.address) = .ok fetched ∧
      ∃ tx ∈ fetched.1, ∃ found, toDeposits watched tx = .ok found ∧ d ∈ found := by
  obtain nothing | ⟨watched, member, visit, made⟩ := (scanAddresses_deposits done).2.2 d reported
  · cases nothing
  obtain ⟨found, listed, here⟩ := List.mem_flatten.mp made
  obtain ⟨tx, among, mapped⟩ := forall₂_left visit.handed.flip found listed
  exact ⟨watched, member, _, visit.fetched, tx, among, found, mapped, here⟩

theorem scanAddresses_record {γ : Type} {record : WatchedAddress → T → Except ChainFault (List γ)}
    (records : ∀ watched tx found, toDeposits watched tx = .ok found → ∃ noted, record watched tx = .ok noted)
    (done : scanAddresses idOf fetch toDeposits previous addresses deposits next = .ok (deposits', next'))
    (before : List γ) :
    ∃ noted, scanAddresses idOf fetch record previous addresses before next = .ok (noted, next') := by
  -- what is made of the entries changes neither the walks nor the cursors
  induction addresses generalizing deposits next before with
  | nil =>
    simp only [scanAddresses, Except.ok.injEq, Prod.mk.injEq] at done
    exact ⟨before, by rw [scanAddresses, done.2]⟩
  | cons watched rest ih =>
    simp only [scanAddresses, bind_eq_ok, mapM_eq_ok] at done ⊢
    obtain ⟨fetched, walked, mapped, handed, done⟩ := done
    obtain ⟨notes, noted⟩ := mapM_succeeds fun tx among =>
      (forall₂_left handed tx among).elim fun found made => records watched tx found made.2
    obtain ⟨all, again⟩ := ih done (before ++ notes.flatten)
    exact ⟨all, fetched, walked, notes, mapM_eq_ok.mp noted, again⟩

end Scan

section Walk

variable {T : Type} {idOf : T → String} {pageSize : Nat} {newest : Except ChainFault (List T)}
  {older : String → Except ChainFault (List T)} {l : List T} {lastSeen : Option String}

/-- The position of the last-seen entry in a newest-first history, or its length if it is not there. -/
def lastSeenAt (idOf : T → String) (lastSeen : Option String) (l : List T) : Nat :=
  l.findIdx fun entry => decide (some (idOf entry) = lastSeen)

theorem lastSeenAt_none : lastSeenAt idOf none l = l.length := by
  simp [lastSeenAt]

theorem lastSeenAt_le : lastSeenAt idOf lastSeen l ≤ l.length :=
  List.findIdx_le_length

def Continues (idOf : T → String) (pageSize : Nat) (older : String → Except ChainFault (List T)) (l : List T) : Prop :=
  -- the provider's continuation after the oldest entry of a full page is the next page of the list
  ∀ k oldest page, ((l.drop (pageSize * k)).take pageSize).length = pageSize →
    ((l.drop (pageSize * k)).take pageSize).getLast? = some oldest → older (idOf oldest) = .ok page →
      page = (l.drop (pageSize * (k + 1))).take pageSize

/-- The number of entries a walk back reads: whole pages, up to the one that passes the last-seen entry. -/
def covered (pageSize position : Nat) : Nat :=
  pageSize * (min (MAX_PAGES_PER_ADDRESS - 1) (position / pageSize) + 1)

theorem covered_eq {position k : Nat} (positive : 0 < pageSize) (reached : pageSize * k ≤ position)
    (capped : k ≤ MAX_PAGES_PER_ADDRESS - 1)
    (stopped : k = MAX_PAGES_PER_ADDRESS - 1 ∨ position < pageSize * (k + 1)) :
    pageSize * (k + 1) = covered pageSize position := by
  have low : k ≤ position / pageSize := (Nat.le_div_iff_mul_le positive).mpr (by rwa [Nat.mul_comm])
  have last : k = min (MAX_PAGES_PER_ADDRESS - 1) (position / pageSize) := by
    rcases stopped with cap | passed
    · omega
    · have high : position / pageSize < k + 1 := (Nat.div_lt_iff_lt_mul positive).mpr (by rwa [Nat.mul_comm])
      omega
  rw [covered, ← last]

-- the loop at page `k`: nothing seen before it, everything up to its end collected
theorem fetchOlderPages_ok (positive : 0 < pageSize) (continues : Continues idOf pageSize older l) {left k : Nat}
    {walked : List T × List T × Bool} (unseen : pageSize * k ≤ lastSeenAt idOf lastSeen l)
    (done : fetchOlderPages idOf pageSize older lastSeen left ((l.drop (pageSize * k)).take pageSize)
      (l.take (pageSize * (k + 1))) (holds idOf lastSeen ((l.drop (pageSize * k)).take pageSize)) = .ok walked) :
    ∃ last ≤ k + left, pageSize * last ≤ lastSeenAt idOf lastSeen l ∧
      (last = k + left ∨ lastSeenAt idOf lastSeen l < pageSize * (last + 1)) ∧
      walked.2.1 = l.take (pageSize * (last + 1)) ∧
      (walked.2.2 || decide (walked.1.length < pageSize)) =
        decide (lastSeenAt idOf lastSeen l < pageSize * (last + 1)) := by
  induction left generalizing k with
  | zero =>
    simp only [fetchOlderPages, Except.ok.injEq] at done
    subst done
    exact ⟨k, le_rfl, unseen, .inl rfl, rfl, segment_ends positive unseen⟩
  | succ left ih =>
    have ends : (holds idOf lastSeen ((l.drop (pageSize * k)).take pageSize) ||
        decide (((l.drop (pageSize * k)).take pageSize).length < pageSize)) =
          decide (lastSeenAt idOf lastSeen l < pageSize * (k + 1)) := segment_ends positive unseen
    rw [fetchOlderPages] at done
    split at done
    · rename_i unfinished
      have beyond : pageSize * (k + 1) ≤ lastSeenAt idOf lastSeen l := by
        rw [unfinished.1, unfinished.2] at ends
        simpa using ends
      split at done
      · cases done
      · rename_i oldest oldestOfPage
        obtain ⟨page, served, done⟩ := bind_eq_ok.mp done
        rw [continues k oldest page unfinished.2 oldestOfPage served, take_append_segment] at done
        obtain ⟨last, capped, rest⟩ := ih beyond done
        rw [show k + 1 + left = k + (left + 1) by omega] at capped rest
        exact ⟨last, capped, rest⟩
    · rename_i finished
      simp only [Except.ok.injEq] at done
      subst done
      refine ⟨k, by omega, unseen, .inr ?_, rfl, ends⟩
      -- the page is never longer than a page, so stopping means found or short
      have size : ((l.drop (pageSize * k)).take pageSize).length ≤ pageSize := List.length_take_le _ _
      have stops : decide (lastSeenAt idOf lastSeen l < pageSize * (k + 1)) = true := by
        rw [← ends, Bool.or_eq_true, decide_eq_true_eq]
        by_cases found : holds idOf lastSeen ((l.drop (pageSize * k)).take pageSize) = true
        · exact .inl found
        · right
          have short : ((l.drop (pageSize * k)).take pageSize).length ≠ pageSize := fun full =>
            finished ⟨Bool.eq_false_iff.mpr found, full⟩
          omega
      exact of_decide_eq_true stops

theorem walkBack_ok (positive : 0 < pageSize) (first : ∀ page, newest = .ok page → page = l.take pageSize)
    (continues : Continues idOf pageSize older l) {id : String} {fetched : List T × Bool}
    (done : walkBack idOf pageSize newest older (some id) = .ok fetched) :
    fetched = (l.take (covered pageSize (lastSeenAt idOf (some id) l)),
      decide (lastSeenAt idOf (some id) l < covered pageSize (lastSeenAt idOf (some id) l))) := by
  simp only [walkBack, bind_eq_ok, pure_eq_ok, Option.isNone_some, Bool.false_or] at done
  obtain ⟨page, served, walked, done, rfl⟩ := done
  rw [first page served] at done
  obtain ⟨last, capped, reached, stopped, collected, flag⟩ :=
    fetchOlderPages_ok (k := 0) positive continues (by simp) (by simpa using done)
  rw [Nat.zero_add] at capped stopped
  rw [collected, flag, covered_eq positive reached capped stopped]

theorem walkBack_first {fetched : List T × Bool} (done : walkBack idOf pageSize newest older none = .ok fetched) :
    ∃ page, newest = .ok page ∧ fetched = (page, true) := by
  simp only [walkBack, bind_eq_ok, pure_eq_ok, Option.isNone_none, Bool.true_or] at done
  obtain ⟨page, served, walked, done, rfl⟩ := done
  simp only [MAX_PAGES_PER_ADDRESS, fetchOlderPages, Bool.true_eq_false, false_and, if_false, Except.ok.injEq] at done
  subst done
  exact ⟨page, served, rfl⟩

theorem walkBack_oversized {page : List T} (served : newest = .ok page) (long : pageSize < page.length)
    {fetched : List T × Bool} (done : walkBack idOf pageSize newest older lastSeen = .ok fetched) :
    fetched = (page, lastSeen.isNone || holds idOf lastSeen page) := by
  simp only [walkBack, served, bind_eq_ok, pure_eq_ok, Except.ok.injEq, exists_eq_left'] at done
  obtain ⟨walked, done, rfl⟩ := done
  have short : ¬ page.length < pageSize := by omega
  have full : page.length ≠ pageSize := by omega
  simp only [MAX_PAGES_PER_ADDRESS, fetchOlderPages, full, and_false, if_false, Except.ok.injEq] at done
  subst done
  simp [short]

theorem fetchOlderPages_succeeds (positive : 0 < pageSize) (answers : ∀ id, ∃ page, older id = .ok page)
    (left : Nat) (page collected : List T) (caughtUp : Bool) :
    ∃ walked, fetchOlderPages idOf pageSize older lastSeen left page collected caughtUp = .ok walked := by
  induction left generalizing page collected caughtUp with
  | zero => exact ⟨_, rfl⟩
  | succ left ih =>
    rw [fetchOlderPages]
    split
    · rename_i unfinished
      split
      · rename_i empty
        rw [List.getLast?_eq_none_iff.mp empty] at unfinished
        simp only [List.length_nil] at unfinished
        omega
      · rename_i oldest oldestOfPage
        obtain ⟨next, served⟩ := answers (idOf oldest)
        obtain ⟨walked, done⟩ := ih next (collected ++ next) (holds idOf lastSeen next)
        exact ⟨walked, bind_eq_ok.mpr ⟨next, served, done⟩⟩
    · exact ⟨_, rfl⟩

theorem walkBack_succeeds (positive : 0 < pageSize) {page : List T} (first : newest = .ok page)
    (answers : ∀ id, ∃ page, older id = .ok page) :
    ∃ fetched, walkBack idOf pageSize newest older lastSeen = .ok fetched := by
  have walking : ∃ walked, fetchOlderPages idOf pageSize older lastSeen (MAX_PAGES_PER_ADDRESS - 1) page page
      (lastSeen.isNone || holds idOf lastSeen page) = .ok walked := fetchOlderPages_succeeds positive answers _ _ _ _
  obtain ⟨walked, done⟩ := walking
  exact ⟨_, bind_eq_ok.mpr ⟨page, first, bind_eq_ok.mpr ⟨walked, done, rfl⟩⟩⟩

end Walk

section Bitcoin

/-- An address's transactions as Esplora lists them: the unconfirmed ones, then the confirmed ones, each
newest first. -/
structure EsploraHistory where
  mempool : List EsploraTx
  confirmed : List EsploraTx
  distinct : ((mempool ++ confirmed).map EsploraTx.txid).Nodup

def EsploraHistory.txs (history : EsploraHistory) : List EsploraTx :=
  history.mempool ++ history.confirmed

/-- Whatever the server answers for the address are Esplora's documented pages of this history. -/
structure Esplora.Serves (pageSize : Nat) (esplora : Esplora) (address : String) (history : EsploraHistory) : Prop where
  newest : ∀ page, esplora.txs address = .ok page → page = history.mempool ++ history.confirmed.take pageSize
  older : ∀ id page, esplora.txsChain address id = .ok page →
    page = (after EsploraTx.txid id history.confirmed).take pageSize

structure Esplora.Answers (esplora : Esplora) (address : String) : Prop where
  newest : ∃ page, esplora.txs address = .ok page
  older : ∀ id, ∃ page, esplora.txsChain address id = .ok page

variable {pageSize : Nat} {esplora : Esplora} {address : String} {history : EsploraHistory} {lastSeen : Option String}

def EsploraHistory.FitsPage (history : EsploraHistory) (pageSize : Nat) : Prop :=
  -- the first page is no longer than a page, so that the walk may go on after it
  history.mempool.length + min pageSize history.confirmed.length ≤ pageSize

instance : Decidable (history.FitsPage pageSize) := inferInstanceAs (Decidable (_ ≤ _))

theorem EsploraHistory.firstPage (history : EsploraHistory) (pageSize : Nat) :
    history.mempool ++ history.confirmed.take pageSize = history.txs.take (history.mempool.length + pageSize) := by
  rw [EsploraHistory.txs, List.take_length_add_append]

theorem EsploraHistory.distinct_confirmed (history : EsploraHistory) : (history.confirmed.map EsploraTx.txid).Nodup := by
  have distinct := history.distinct
  rw [List.map_append] at distinct
  exact distinct.of_append_right

theorem EsploraHistory.FitsPage.firstPage (fits : history.FitsPage pageSize) :
    history.mempool ++ history.confirmed.take pageSize = history.txs.take pageSize := by
  unfold EsploraHistory.FitsPage at fits
  rw [EsploraHistory.firstPage]
  by_cases confirmed : pageSize ≤ history.confirmed.length
  · rw [Nat.min_eq_left confirmed] at fits
    rw [show history.mempool.length + pageSize = pageSize by omega]
  · rw [Nat.min_eq_right (by omega)] at fits
    have size : history.txs.length ≤ pageSize := by rwa [EsploraHistory.txs, List.length_append]
    rw [List.take_of_length_le (by omega), List.take_of_length_le size]

theorem after_last {T : Type} {idOf : T → String} {l : List T} {oldest : T} (distinct : (l.map idOf).Nodup)
    (last : l.getLast? = some oldest) : after idOf (idOf oldest) l = [] := by
  have whole : (l.drop 0).take l.length = l := by simp
  have next := after_segment (a := 0) (b := l.length) distinct (by rw [whole]) (by rw [whole]; exact last)
  rw [next, Nat.zero_add, List.drop_length]

theorem Esplora.Serves.continues (positive : 0 < pageSize) (serves : esplora.Serves pageSize address history)
    (fits : history.FitsPage pageSize) :
    Continues EsploraTx.txid pageSize (esplora.txsChain address) history.txs := by
  intro k oldest page full last served
  rw [serves.older _ _ served]
  cases pending : history.mempool with
  | nil =>
    have confirmed : history.txs = history.confirmed := by rw [EsploraHistory.txs, pending, List.nil_append]
    rw [confirmed] at full last ⊢
    rw [after_segment history.distinct_confirmed full last, Nat.mul_succ]
  | cons first rest =>
    -- with anything in the mempool, the first page can only be full by holding the whole history
    have size : history.txs.length ≤ pageSize := by
      unfold EsploraHistory.FitsPage at fits
      rw [EsploraHistory.txs, List.length_append]
      rw [pending, List.length_cons] at fits ⊢
      omega
    have whole : k = 0 ∧ history.txs.length = pageSize := by
      rw [List.length_take, List.length_drop] at full
      have : k = 0 := by
        by_contra later
        have := Nat.le_mul_of_pos_right pageSize (Nat.pos_of_ne_zero later)
        omega
      subst this
      omega
    obtain ⟨rfl, filled⟩ := whole
    rw [Nat.mul_zero, List.drop_zero, List.take_of_length_le size] at last
    have nothing : after EsploraTx.txid oldest.txid history.confirmed = [] := by
      cases confirmed : history.confirmed with
      | nil => simp [after]
      | cons c others =>
        rw [← confirmed]
        refine after_last history.distinct_confirmed ?_
        rw [EsploraHistory.txs, List.getLast?_append_of_ne_nil _ (by rw [confirmed]; simp)] at last
        exact last
    rw [nothing, List.drop_of_length_le (by omega)]

def EsploraHistory.read (history : EsploraHistory) (pageSize : Nat) (lastSeen : Option String) : Nat :=
  -- the number of an address's transactions that Bitcoin's walk back reads
  if lastSeen.isSome ∧ history.FitsPage pageSize then covered pageSize (lastSeenAt EsploraTx.txid lastSeen history.txs)
  else history.mempool.length + pageSize

theorem fetchAddressHistory_ok (positive : 0 < pageSize) (serves : esplora.Serves pageSize address history)
    {fetched : List EsploraTx × Bool}
    (done : BitcoinDepositAdapter.fetchAddressHistory pageSize esplora address lastSeen = .ok fetched) :
    fetched.1 = history.txs.take (history.read pageSize lastSeen) ∧
      fetched.2 = (lastSeen.isNone || decide (lastSeenAt EsploraTx.txid lastSeen history.txs < history.read pageSize lastSeen ∧
        (history.FitsPage pageSize ∨ lastSeenAt EsploraTx.txid lastSeen history.txs < history.txs.length))) := by
  unfold BitcoinDepositAdapter.fetchAddressHistory at done
  unfold EsploraHistory.read
  cases lastSeen with
  | none =>
    obtain ⟨page, served, rfl⟩ := walkBack_first done
    rw [serves.newest page served, history.firstPage]
    simp
  | some id =>
    by_cases fits : history.FitsPage pageSize
    · rw [walkBack_ok positive (fun page served => (serves.newest page served).trans fits.firstPage)
        (serves.continues positive fits) done]
      simp [fits]
    · obtain ⟨page, served, _⟩ := bind_eq_ok.mp done
      have first := serves.newest page served
      have long : pageSize < page.length := by
        unfold EsploraHistory.FitsPage at fits
        rw [first, List.length_append, List.length_take]
        omega
      rw [walkBack_oversized served long done, first, history.firstPage]
      have found : holds EsploraTx.txid (some id) (history.txs.take (history.mempool.length + pageSize)) = _ :=
        any_segment (a := 0) (Nat.zero_le _)
      rw [Nat.zero_add] at found
      simp only [fits, and_false, if_false, Option.isNone_some, Bool.false_or, false_or, true_and]
      exact found

end Bitcoin

section Solana

structure SolanaRpc.Serves (limit : Nat) (rpc : SolanaRpc) (address : String) (history : List SolanaSignatureInfo) :
    Prop where
  -- whatever the node answers for the address are pages of this newest-first history
  distinct : (history.map SolanaSignatureInfo.signature).Nodup
  newest : ∀ page, rpc.getSignaturesForAddress address limit none = .ok page → page = history.take limit
  older : ∀ before page, rpc.getSignaturesForAddress address limit (some before) = .ok page →
    page = (after SolanaSignatureInfo.signature before history).take limit

variable {limit : Nat} {rpc : SolanaRpc} {address : String} {history : List SolanaSignatureInfo} {lastSeen : Option String}

def signaturesRead (limit : Nat) (lastSeen : Option String) (history : List SolanaSignatureInfo) : Nat :=
  -- the number of an address's signatures that Solana's walk back reads
  if lastSeen.isSome then covered limit (lastSeenAt SolanaSignatureInfo.signature lastSeen history) else limit

theorem fetchSignatureHistory_ok (positive : 0 < limit) (serves : rpc.Serves limit address history)
    {fetched : List SolanaSignatureInfo × Bool}
    (done : SolanaDepositAdapter.fetchSignatureHistory limit rpc address lastSeen = .ok fetched) :
    fetched.1 = history.take (signaturesRead limit lastSeen history) ∧
      fetched.2 = (lastSeen.isNone || decide
        (lastSeenAt SolanaSignatureInfo.signature lastSeen history < signaturesRead limit lastSeen history)) := by
  unfold SolanaDepositAdapter.fetchSignatureHistory at done
  cases lastSeen with
  | none =>
    obtain ⟨page, served, rfl⟩ := walkBack_first done
    rw [serves.newest page served]
    simp [signaturesRead]
  | some id =>
    have continues : Continues SolanaSignatureInfo.signature limit
        (fun before => rpc.getSignaturesForAddress address limit (some before)) history := by
      intro k oldest page full last served
      rw [serves.older _ _ served, after_segment serves.distinct full last, Nat.mul_succ]
    rw [walkBack_ok positive serves.newest continues done]
    simp [signaturesRead]

end Solana

section Xrp

def pagePosition (served : Nat → Nat) : Nat → Nat
  -- where rippled's pages begin, when it serves this many entries from each position
  | 0 => 0
  | k + 1 => pagePosition served k + served (pagePosition served k)

theorem pagePosition_constant (limit k : Nat) : pagePosition (fun _ => limit) k = limit * k := by
  induction k with
  | zero => rfl
  | succ k ih => rw [pagePosition, ih, Nat.mul_succ]

theorem pagePosition_mono (served : Nat → Nat) : Monotone (pagePosition served) :=
  monotone_nat_of_le_succ fun _ => Nat.le_add_right _ _

def pageAt (served : Nat → Nat) (history : List XrplAccountTxEntry) (position : Nat) : AccountTxReply :=
  -- the page at a position, with a marker exactly when older entries remain
  .result ((history.drop position).take (served position))
    (if position + served position < history.length then some ⟨position + served position⟩ else none)

def pageMarker (served : Nat → Nat) : Nat → Option Marker
  | 0 => none
  | k + 1 => some ⟨pagePosition served (k + 1)⟩

/-- Whatever rippled answers for the account is an error or a page of this newest-first history. -/
structure Rippled.Serves (limit : Nat) (rippled : Rippled) (account : String) (served : Nat → Nat)
    (history : List XrplAccountTxEntry) : Prop where
  distinct : (history.map XrplAccountTxEntry.hash).Nodup
  pages : ∀ k reply, rippled.accountTx account limit (pageMarker served k) = .ok reply →
    (∃ code, reply = .error code) ∨ reply = pageAt served history (pagePosition served k)

variable {limit : Nat} {rippled : Rippled} {account : String} {served : Nat → Nat}
  {history : List XrplAccountTxEntry} {lastSeen : Option String}

/-- How a walk back through an account's history ends: at its `k`-th page, which is the last it may fetch,
holds the last-seen entry or is the oldest one; or because that request is answered `actNotFound`. -/
inductive WalkEnds (reply : Nat → Except ChainFault AccountTxReply) (served : Nat → Nat) (position length cap k : Nat)
    (history : List XrplAccountTxEntry) : List XrplAccountTxEntry × Bool → Prop
  | page (answered : reply k = .ok (pageAt served history (pagePosition served k)))
      (stopped : k = cap ∨ position < pagePosition served (k + 1) ∨ length ≤ pagePosition served (k + 1)) :
      WalkEnds reply served position length cap k history (history.take (pagePosition served (k + 1)),
        decide (position < pagePosition served (k + 1) ∨ length ≤ pagePosition served (k + 1)))
  | lost (answered : reply k = .ok (.error "actNotFound")) :
      WalkEnds reply served position length cap k history (history.take (pagePosition served k), true)

theorem fetchPages_cases {accountTx : Option Marker → Except ChainFault AccountTxReply} {left : Nat}
    {marker : Option Marker} {collected : List XrplAccountTxEntry} {fetched : List XrplAccountTxEntry × Bool}
    (done : XrpDepositAdapter.fetchPages accountTx lastSeen left marker collected = .ok fetched) :
    (accountTx marker = .ok (.error "actNotFound") ∧ fetched = (collected, true)) ∨
      ∃ transactions next, accountTx marker = .ok (.result transactions next) ∧
        ((fetched = (collected ++ transactions, holds XrplAccountTxEntry.hash lastSeen transactions || next.isNone) ∧
            (left = 0 ∨ (holds XrplAccountTxEntry.hash lastSeen transactions || next.isNone) = true)) ∨
          ∃ rest, left = rest + 1 ∧ (holds XrplAccountTxEntry.hash lastSeen transactions || next.isNone) = false ∧
            XrpDepositAdapter.fetchPages accountTx lastSeen rest next (collected ++ transactions) = .ok fetched) := by
  -- one round of the loop: an unknown account ends it, a page ends it or leads to the next round
  rw [XrpDepositAdapter.fetchPages.eq_def] at done
  obtain ⟨reply, answered, done⟩ := bind_eq_ok.mp done
  cases reply with
  | error code =>
    left
    simp only at done
    split at done
    · rename_i unknown
      subst unknown
      exact ⟨answered, (pure_eq_ok.mp done).symm⟩
    · cases done
  | result transactions next =>
    refine .inr ⟨transactions, next, answered, ?_⟩
    cases left with
    | zero => exact .inl ⟨(pure_eq_ok.mp done).symm, .inl rfl⟩
    | succ rest =>
      simp only at done
      split at done
      · rename_i unfinished
        refine .inr ⟨rest, rfl, ?_, done⟩
        rw [unfinished.1, Bool.false_or, Option.isNone_eq_false_iff]
        exact unfinished.2
      · rename_i finished
        refine .inl ⟨(pure_eq_ok.mp done).symm, .inr ?_⟩
        rw [Bool.or_eq_true, Option.isNone_iff_eq_none, ← Option.not_isSome_iff_eq_none]
        by_cases found : holds XrplAccountTxEntry.hash lastSeen transactions = true
        · exact .inl found
        · exact .inr fun more => finished ⟨Bool.eq_false_iff.mpr found, more⟩

theorem pageAt_ends {k : Nat} (unseen : pagePosition served k ≤ lastSeenAt XrplAccountTxEntry.hash lastSeen history) :
    (holds XrplAccountTxEntry.hash lastSeen ((history.drop (pagePosition served k)).take (served (pagePosition served k))) ||
      (if pagePosition served k + served (pagePosition served k) < history.length
        then some (Marker.mk (pagePosition served k + served (pagePosition served k))) else none).isNone) =
      decide (lastSeenAt XrplAccountTxEntry.hash lastSeen history < pagePosition served (k + 1) ∨
        history.length ≤ pagePosition served (k + 1)) := by
  have found : holds XrplAccountTxEntry.hash lastSeen
      ((history.drop (pagePosition served k)).take (served (pagePosition served k))) = _ := any_segment unseen
  have bound : lastSeenAt XrplAccountTxEntry.hash lastSeen history ≤ history.length := lastSeenAt_le
  rw [found, Bool.eq_iff_iff]
  simp only [Bool.or_eq_true, decide_eq_true_eq, Option.isNone_iff_eq_none, ite_eq_right_iff, reduceCtorEq, imp_false,
    not_lt]
  rw [show pagePosition served (k + 1) = pagePosition served k + served (pagePosition served k) from rfl]
  unfold lastSeenAt at bound ⊢
  omega

theorem fetchPages_ok (serves : rippled.Serves limit account served history) {left k : Nat}
    {fetched : List XrplAccountTxEntry × Bool}
    (unseen : pagePosition served k ≤ lastSeenAt XrplAccountTxEntry.hash lastSeen history)
    (remaining : 0 < k → pagePosition served k < history.length)
    (done : XrpDepositAdapter.fetchPages (rippled.accountTx account limit) lastSeen left (pageMarker served k)
      (history.take (pagePosition served k)) = .ok fetched) :
    ∃ last ≤ k + left, k ≤ last ∧ pagePosition served last ≤ lastSeenAt XrplAccountTxEntry.hash lastSeen history ∧
      (0 < last → pagePosition served last < history.length) ∧
      (∀ i, k ≤ i → i < last → rippled.accountTx account limit (pageMarker served i) =
        .ok (pageAt served history (pagePosition served i))) ∧
      WalkEnds (fun i => rippled.accountTx account limit (pageMarker served i)) served
        (lastSeenAt XrplAccountTxEntry.hash lastSeen history) history.length (k + left) last history fetched := by
  induction left using Nat.strong_induction_on generalizing k with
  | _ left ih =>
    rcases fetchPages_cases done with ⟨answered, rfl⟩ | ⟨transactions, next, answered, ending⟩
    · exact ⟨k, by omega, le_rfl, unseen, remaining, fun i low high => absurd high (by omega), .lost answered⟩
    · obtain ⟨code, other⟩ | page := serves.pages k _ answered
      · cases other
      have ends := pageAt_ends unseen
      rw [page] at answered
      obtain ⟨rfl, rfl⟩ := AccountTxReply.result.inj page
      rw [take_append_segment] at ending
      simp only [ends] at ending
      rcases ending with ⟨rfl, stopped⟩ | ⟨rest, rfl, unfinished, again⟩
      · refine ⟨k, by omega, le_rfl, unseen, remaining, fun i low high => absurd high (by omega), .page answered ?_⟩
        rcases stopped with rfl | passed
        · exact .inl rfl
        · exact .inr (of_decide_eq_true passed)
      · have going : ¬ (lastSeenAt XrplAccountTxEntry.hash lastSeen history < pagePosition served (k + 1) ∨
            history.length ≤ pagePosition served (k + 1)) := of_decide_eq_false unfinished
        have more : pagePosition served (k + 1) < history.length := by omega
        rw [if_pos (show pagePosition served k + served (pagePosition served k) < history.length from more)] at again
        obtain ⟨last, capped, later, position, older, pages, ended⟩ :=
          ih rest (by omega) (k := k + 1) (by omega) (fun _ => more) again
        rw [show k + 1 + rest = k + (rest + 1) by omega] at capped ended
        refine ⟨last, capped, by omega, position, older, fun i low high => ?_, ended⟩
        rcases Nat.eq_or_lt_of_le low with rfl | beyond
        · exact answered
        · exact pages i beyond high

theorem fetchAccountHistory_ok (serves : rippled.Serves limit account served history)
    {fetched : List XrplAccountTxEntry × Bool}
    (done : XrpDepositAdapter.fetchAccountHistory limit rippled account lastSeen = .ok fetched) :
    ∃ last ≤ MAX_PAGES_PER_ADDRESS - 1,
      pagePosition served last ≤ lastSeenAt XrplAccountTxEntry.hash lastSeen history ∧
      (0 < last → pagePosition served last < history.length) ∧
      (∀ i < last, rippled.accountTx account limit (pageMarker served i) =
        .ok (pageAt served history (pagePosition served i))) ∧
      WalkEnds (fun i => rippled.accountTx account limit (pageMarker served i)) served
        (lastSeenAt XrplAccountTxEntry.hash lastSeen history) history.length (MAX_PAGES_PER_ADDRESS - 1) last history
        fetched := by
  obtain ⟨last, capped, _, position, older, pages, ended⟩ :=
    fetchPages_ok (k := 0) serves (Nat.zero_le _) (fun absurdity => absurd absurdity (lt_irrefl 0)) done
  rw [Nat.zero_add] at capped ended
  exact ⟨last, capped, position, older, fun i low => pages i (Nat.zero_le _) low, ended⟩

structure Rippled.Answers (limit : Nat) (rippled : Rippled) (account : String) (history : List XrplAccountTxEntry) :
    Prop where
  -- rippled answers every request about the account with a page of at most the requested size
  distinct : (history.map XrplAccountTxEntry.hash).Nodup
  pages : ∀ k, rippled.accountTx account limit (pageMarker (fun _ => limit) k) =
    .ok (pageAt (fun _ => limit) history (limit * k))

theorem Rippled.Answers.serves (answers : rippled.Answers limit account history) :
    rippled.Serves limit account (fun _ => limit) history where
  distinct := answers.distinct
  pages k reply answered := by
    rw [answers.pages k, Except.ok.injEq] at answered
    rw [pagePosition_constant]
    exact .inr answered.symm

def walkEnd (lastSeen : Option String) (history : List XrplAccountTxEntry) : Nat :=
  -- the position that ends the walk: the last-seen entry's, or the oldest entry's if it is gone
  min (lastSeenAt XrplAccountTxEntry.hash lastSeen history) (history.length - 1)

theorem fetchAccountHistory_eq (positive : 0 < limit) (answers : rippled.Answers limit account history)
    {fetched : List XrplAccountTxEntry × Bool}
    (done : XrpDepositAdapter.fetchAccountHistory limit rippled account lastSeen = .ok fetched) :
    fetched = (history.take (covered limit (walkEnd lastSeen history)),
      decide (walkEnd lastSeen history < covered limit (walkEnd lastSeen history))) := by
  obtain ⟨last, capped, position, older, _, ended⟩ := fetchAccountHistory_ok answers.serves done
  have bound : lastSeenAt XrplAccountTxEntry.hash lastSeen history ≤ history.length := lastSeenAt_le
  simp only [pagePosition_constant] at position older ended
  cases ended with
  | lost answered =>
    rw [answers.pages last] at answered
    cases answered
  | page _ stopped =>
    rw [pagePosition_constant] at stopped ⊢
    have reached : limit * last ≤ walkEnd lastSeen history := by
      rcases Nat.eq_zero_or_pos last with rfl | later
      · simp
      · have := older later
        unfold walkEnd
        omega
    have passed : (lastSeenAt XrplAccountTxEntry.hash lastSeen history < limit * (last + 1) ∨
        history.length ≤ limit * (last + 1)) ↔ walkEnd lastSeen history < limit * (last + 1) := by
      have : 0 < limit * (last + 1) := Nat.mul_pos positive (Nat.succ_pos _)
      unfold walkEnd
      omega
    rw [passed] at stopped
    rw [← covered_eq positive reached capped stopped, decide_eq_decide.mpr passed]

theorem fetchPages_succeeds (answers : rippled.Answers limit account history) {k left : Nat}
    (collected : List XrplAccountTxEntry) :
    ∃ fetched, XrpDepositAdapter.fetchPages (rippled.accountTx account limit) lastSeen left
      (pageMarker (fun _ => limit) k) collected = .ok fetched := by
  induction left generalizing k collected with
  | zero =>
    rw [XrpDepositAdapter.fetchPages, answers.pages k]
    exact ⟨_, rfl⟩
  | succ left ih =>
    rw [XrpDepositAdapter.fetchPages, answers.pages k]
    simp only [pageAt, bind_eq_ok, Except.ok.injEq, exists_eq_left']
    by_cases more : limit * k + limit < history.length
    · have next : some (Marker.mk (limit * k + limit)) = pageMarker (fun _ => limit) (k + 1) := by
        rw [pageMarker, pagePosition_constant, Nat.mul_succ]
      rw [if_pos more, next]
      split
      · exact ih _
      · exact ⟨_, rfl⟩
    · simp only [if_neg more, Option.isSome_none, Bool.false_eq_true, and_false, if_false]
      exact ⟨_, rfl⟩

end Xrp

section Refinement

variable {pageSize : Nat} {esplora : Esplora} {rpc : SolanaRpc} {rippled : Rippled} {address account : String}

theorem lastSeenAt_map {T : Type} (idOf : T → String) (lastSeen : Option String) (l : List T) :
    lastSeenAt idOf lastSeen l = lastSeenAt id lastSeen (l.map idOf) := by
  simp only [lastSeenAt, List.findIdx_map]
  rfl

theorem covered_pred {pageSize length : Nat} (ragged : ¬ pageSize ∣ length) :
    covered pageSize (length - 1) = covered pageSize length ∧
      (length - 1 < covered pageSize length ↔ length < covered pageSize length) := by
  -- off the page boundary, looking for an absent entry and looking for the oldest one read the same
  have nonempty : length ≠ 0 := by
    rintro rfl
    exact ragged (Nat.dvd_zero pageSize)
  obtain ⟨older, rfl⟩ := Nat.exists_eq_succ_of_ne_zero nonempty
  have same : older / pageSize = (older + 1) / pageSize := (Nat.succ_div_of_not_dvd ragged).symm
  rw [Nat.succ_sub_one]
  refine ⟨by rw [covered, covered, same], ?_⟩
  have boundary : older + 1 ≠ covered pageSize (older + 1) := fun equal => ragged ⟨_, equal⟩
  constructor
  · intro before
    exact lt_of_le_of_ne before boundary
  · exact fun passed => lt_trans (Nat.lt_succ_self older) passed

/-- The three providers hold this list for their address, and answer every request with pages of this size. -/
structure SameHistory (pageSize : Nat) (esplora : Esplora) (rpc : SolanaRpc) (rippled : Rippled)
    (address : String) (hashes : List String) where
  txs : List EsploraTx
  signatures : List SolanaSignatureInfo
  entries : List XrplAccountTxEntry
  distinct : hashes.Nodup
  bitcoin : txs.map EsploraTx.txid = hashes
  solana : signatures.map SolanaSignatureInfo.signature = hashes
  xrp : entries.map XrplAccountTxEntry.hash = hashes
  newestTxs : esplora.txs address = .ok (txs.take pageSize)
  olderTxs : ∀ txid, esplora.txsChain address txid = .ok ((after EsploraTx.txid txid txs).take pageSize)
  newestSignatures : rpc.getSignaturesForAddress address pageSize none = .ok (signatures.take pageSize)
  olderSignatures : ∀ before, rpc.getSignaturesForAddress address pageSize (some before) =
    .ok ((after SolanaSignatureInfo.signature before signatures).take pageSize)
  pages : ∀ k, rippled.accountTx address pageSize (pageMarker (fun _ => pageSize) k) =
    .ok (pageAt (fun _ => pageSize) entries (pageSize * k))

def ids {T : Type} (idOf : T → String) (fetched : List T × Bool) : List String × Bool :=
  (fetched.1.map idOf, fetched.2)

def walked (pageSize : Nat) (lastSeen : Option String) (hashes : List String) : List String × Bool :=
  -- what Bitcoin's and Solana's walks return
  match lastSeen with
  | none => (hashes.take pageSize, true)
  | some _ => (hashes.take (covered pageSize (lastSeenAt id lastSeen hashes)),
      decide (lastSeenAt id lastSeen hashes < covered pageSize (lastSeenAt id lastSeen hashes)))

section Walks

variable {hashes : List String} {lastSeen : Option String}

theorem SameHistory.walkBack_eq {T : Type} {idOf : T → String} {l : List T} {newest : Except ChainFault (List T)}
    {older : String → Except ChainFault (List T)} (positive : 0 < pageSize) (distinct : hashes.Nodup)
    (named : l.map idOf = hashes) (first : newest = .ok (l.take pageSize))
    (next : ∀ id, older id = .ok ((after idOf id l).take pageSize)) :
    ∃ fetched, walkBack idOf pageSize newest older lastSeen = .ok fetched ∧
      ids idOf fetched = walked pageSize lastSeen hashes := by
  obtain ⟨fetched, done⟩ : ∃ fetched, walkBack idOf pageSize newest older lastSeen = .ok fetched :=
    walkBack_succeeds positive first fun id => ⟨_, next id⟩
  refine ⟨fetched, done, ?_⟩
  subst named
  cases lastSeen with
  | none =>
    obtain ⟨page, served, rfl⟩ := walkBack_first done
    rw [first, Except.ok.injEq] at served
    rw [ids, walked, ← served, List.map_take]
  | some id =>
    have continues : Continues idOf pageSize older l := by
      intro k oldest page full last served
      rw [next, Except.ok.injEq, after_segment distinct full last] at served
      rw [← served, Nat.mul_succ]
    rw [walkBack_ok positive (fun page served => by rw [first, Except.ok.injEq] at served; exact served.symm)
      continues done]
    rw [ids, walked, List.map_take, ← lastSeenAt_map]

theorem SameHistory.account_eq {entries : List XrplAccountTxEntry} (positive : 0 < pageSize)
    (named : entries.map XrplAccountTxEntry.hash = hashes) (answers : rippled.Answers pageSize address entries) :
    ∃ fetched, XrpDepositAdapter.fetchAccountHistory pageSize rippled address lastSeen = .ok fetched ∧
      ids XrplAccountTxEntry.hash fetched =
        (hashes.take (covered pageSize (min (lastSeenAt id lastSeen hashes) (hashes.length - 1))),
          decide (min (lastSeenAt id lastSeen hashes) (hashes.length - 1) <
            covered pageSize (min (lastSeenAt id lastSeen hashes) (hashes.length - 1)))) := by
  obtain ⟨fetched, done⟩ : ∃ fetched, XrpDepositAdapter.fetchAccountHistory pageSize rippled address lastSeen = .ok fetched :=
    fetchPages_succeeds (k := 0) answers []
  refine ⟨fetched, done, ?_⟩
  subst named
  rw [fetchAccountHistory_eq positive answers done, ids, walkEnd, lastSeenAt_map, List.map_take, List.length_map]

theorem walked_eq_account_iff (positive : 0 < pageSize) (ragged : ¬ pageSize ∣ hashes.length) :
    walked pageSize lastSeen hashes =
        (hashes.take (covered pageSize (min (lastSeenAt id lastSeen hashes) (hashes.length - 1))),
          decide (min (lastSeenAt id lastSeen hashes) (hashes.length - 1) <
            covered pageSize (min (lastSeenAt id lastSeen hashes) (hashes.length - 1)))) ↔
      lastSeen ≠ none ∨ hashes.length ≤ pageSize := by
  have nonempty : 0 < hashes.length := Nat.pos_of_ne_zero fun empty => ragged (empty ▸ Nat.dvd_zero pageSize)
  obtain ⟨reads, flags⟩ := covered_pred ragged
  cases lastSeen with
  | some hash =>
    simp only [walked, ne_eq, reduceCtorEq, not_false_eq_true, true_or, iff_true]
    have bound : lastSeenAt id (some hash) hashes ≤ hashes.length := lastSeenAt_le
    rcases Nat.lt_or_eq_of_le bound with present | absent
    · rw [Nat.min_eq_left (by omega)]
    · rw [absent, Nat.min_eq_right (by omega), reads, decide_eq_decide.mpr flags]
  | none =>
    have last : min (lastSeenAt id none hashes) (hashes.length - 1) = hashes.length - 1 := by
      rw [lastSeenAt_none]
      omega
    simp only [walked, last, ne_eq, not_true_eq_false, false_or]
    constructor
    · intro same
      have lengths := congrArg (fun fetched => fetched.1.length) same
      simp only [List.length_take] at lengths
      by_contra longer
      -- a second page is read, so more than a page is collected
      have second : 1 ≤ (hashes.length - 1) / pageSize := (Nat.le_div_iff_mul_le positive).mpr (by omega)
      have double : pageSize * 2 ≤ covered pageSize (hashes.length - 1) := by
        unfold covered MAX_PAGES_PER_ADDRESS
        exact Nat.mul_le_mul_left _ (by omega)
      omega
    · intro fits
      have first : (hashes.length - 1) / pageSize = 0 := Nat.div_eq_of_lt (by omega)
      have page : covered pageSize (hashes.length - 1) = pageSize := by simp [covered, first]
      rw [page, decide_eq_true (by omega)]

/-- Off the page boundary XRP's walk agrees with the other two unless it is a first scan of more than a page:
there it goes on for as long as it gets a marker, where they stop. -/
theorem walks_agree_iff (positive : 0 < pageSize) (ragged : ¬ pageSize ∣ hashes.length)
    (same : SameHistory pageSize esplora rpc rippled address hashes) :
    ∃ bitcoin solana xrp,
      BitcoinDepositAdapter.fetchAddressHistory pageSize esplora address lastSeen = .ok bitcoin ∧
      SolanaDepositAdapter.fetchSignatureHistory pageSize rpc address lastSeen = .ok solana ∧
      XrpDepositAdapter.fetchAccountHistory pageSize rippled address lastSeen = .ok xrp ∧
      ((ids EsploraTx.txid bitcoin = ids SolanaSignatureInfo.signature solana ∧
          ids EsploraTx.txid bitcoin = ids XrplAccountTxEntry.hash xrp) ↔
        lastSeen ≠ none ∨ hashes.length ≤ pageSize) := by
  obtain ⟨bitcoin, fetchedTxs, txids⟩ :=
    SameHistory.walkBack_eq positive same.distinct same.bitcoin same.newestTxs same.olderTxs
  obtain ⟨solana, fetchedSignatures, signatures⟩ :=
    SameHistory.walkBack_eq positive same.distinct same.solana same.newestSignatures same.olderSignatures
  obtain ⟨xrp, fetchedEntries, entries⟩ :=
    SameHistory.account_eq positive same.xrp ⟨by rw [same.xrp]; exact same.distinct, same.pages⟩
  refine ⟨bitcoin, solana, xrp, fetchedTxs, fetchedSignatures, fetchedEntries, ?_⟩
  rw [txids, signatures, entries]
  simp only [true_and]
  exact walked_eq_account_iff positive ragged

end Walks

def plainTx (address txid : String) : EsploraTx where
  txid := txid
  vout := [{ scriptpubkeyAddress := some address, value := 100000 }]
  confirmed := true
  blockHeight := some 100

def plainEntry (address hash : String) : XrplAccountTxEntry where
  hash := hash
  transactionType := "Payment"
  destination := address
  amount := .drops 1000000
  destinationTag := none
  ledgerIndex := 100
  transactionResult := "tesSUCCESS"
  deliveredAmount := none
  validated := true

def Esplora.holding (pageSize : Nat) (txs : List EsploraTx) : Esplora where
  -- servers that hold one confirmed history for every address and always answer
  tipHeight := .ok 150
  txs _ := .ok (txs.take pageSize)
  txsChain _ id := .ok ((after EsploraTx.txid id txs).take pageSize)

def SolanaRpc.holding (lookup : String → Option SolanaTransaction) (signatures : List SolanaSignatureInfo) : SolanaRpc where
  getSlot := .ok 500
  getSignaturesForAddress _ limit
    | none => .ok (signatures.take limit)
    | some before => .ok ((after SolanaSignatureInfo.signature before signatures).take limit)
  getTransaction signature := .ok (lookup signature)

def Rippled.holding (entries : List XrplAccountTxEntry) : Rippled where
  validatedLedgerIndex := .ok 500
  accountTx _ limit marker := .ok (pageAt (fun _ => limit) entries (marker.elim 0 Marker.position))

theorem Rippled.holding_pages (account : String) (limit k : Nat) (entries : List XrplAccountTxEntry) :
    (Rippled.holding entries).accountTx account limit (pageMarker (fun _ => limit) k) =
      .ok (pageAt (fun _ => limit) entries (limit * k)) := by
  cases k with
  | zero => rfl
  | succ k => simp only [Rippled.holding, pageMarker, pagePosition_constant, Option.elim_some]

def sameHistory (pageSize : Nat) (address : String) (hashes : List String) (distinct : hashes.Nodup) :
    SameHistory pageSize (Esplora.holding pageSize (hashes.map (plainTx address)))
      (SolanaRpc.holding (fun _ => none) (hashes.map SolanaSignatureInfo.mk))
      (Rippled.holding (hashes.map (plainEntry address))) address hashes where
  txs := hashes.map (plainTx address)
  signatures := hashes.map SolanaSignatureInfo.mk
  entries := hashes.map (plainEntry address)
  distinct := distinct
  bitcoin := by simp [plainTx, Function.comp_def]
  solana := by simp [Function.comp_def]
  xrp := by simp [plainEntry, Function.comp_def]
  newestTxs := rfl
  olderTxs _ := rfl
  newestSignatures := rfl
  olderSignatures _ := rfl
  pages k := Rippled.holding_pages _ _ k _

theorem walks_agree_on_third : ∃ bitcoin solana xrp,
    BitcoinDepositAdapter.fetchAddressHistory 2 (Esplora.holding 2 (["c", "b", "a"].map (plainTx "tb1q"))) "tb1q"
      (some "a") = .ok bitcoin ∧
    SolanaDepositAdapter.fetchSignatureHistory 2
      (SolanaRpc.holding (fun _ => none) (["c", "b", "a"].map SolanaSignatureInfo.mk)) "tb1q" (some "a") = .ok solana ∧
    XrpDepositAdapter.fetchAccountHistory 2 (Rippled.holding (["c", "b", "a"].map (plainEntry "tb1q"))) "tb1q"
      (some "a") = .ok xrp ∧
    ((ids EsploraTx.txid bitcoin = ids SolanaSignatureInfo.signature solana ∧
        ids EsploraTx.txid bitcoin = ids XrplAccountTxEntry.hash xrp) ↔
      some "a" ≠ none ∨ ["c", "b", "a"].length ≤ 2) :=
  walks_agree_iff (by decide) (by decide) (sameHistory 2 "tb1q" ["c", "b", "a"] (by decide))

/-- A first scan of three transactions in pages of two: Bitcoin's walk stops after one page, XRP's does not. -/
theorem first_scans_differ : Nonempty (SameHistory 2 (Esplora.holding 2 (["c", "b", "a"].map (plainTx "tb1q")))
      (SolanaRpc.holding (fun _ => none) (["c", "b", "a"].map SolanaSignatureInfo.mk))
      (Rippled.holding (["c", "b", "a"].map (plainEntry "tb1q"))) "tb1q" ["c", "b", "a"]) ∧
    ¬ 2 ∣ ["c", "b", "a"].length ∧
    BitcoinDepositAdapter.fetchAddressHistory 2 (Esplora.holding 2 (["c", "b", "a"].map (plainTx "tb1q"))) "tb1q" none =
      .ok (["c", "b"].map (plainTx "tb1q"), true) ∧
    XrpDepositAdapter.fetchAccountHistory 2 (Rippled.holding (["c", "b", "a"].map (plainEntry "tb1q"))) "tb1q" none =
      .ok (["c", "b", "a"].map (plainEntry "tb1q"), true) :=
  ⟨⟨sameHistory 2 "tb1q" ["c", "b", "a"] (by decide)⟩, by decide, rfl, by decide +kernel⟩

end Refinement

end VerdictVaut
