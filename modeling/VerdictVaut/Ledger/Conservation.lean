import VerdictVaut.Ledger.Postings
import VerdictVaut.Shared.Runs

set_option autoImplicit false

namespace VerdictVaut.Ledger

open Relational Relational.Tx

def ofTransaction (transactionId : Nat) (entry : LedgerEntry) : Bool :=
  decide (entry.transactionId = transactionId)

def ofAsset (assetId : Nat) (_owner : AccountRef) (asset : Nat) : Bool := decide (asset = assetId)

structure Books (l : Ledger) : Prop where
  -- the double-entry discipline of a ledger
  follows : l.Follows
  named : ∀ entry ∈ l.entries.rows, entry.transactionId < l.transactions.size
  balanced : ∀ t, sumWhere (ofTransaction t) LedgerEntry.amount l.entries.rows = 0
  zeroSum : ∀ assetId, held (ofAsset assetId) l = 0

section Legs

variable {l l' : Ledger} {input : PostTransactionInput} {assetId transactionId : Nat}
  {postings : List Posting} {legs : List LedgerEntry}

theorem legs_transaction (matched : List.Forall₂ (IsLeg l transactionId assetId) postings legs) :
    ∀ entry ∈ legs, entry.transactionId = transactionId := by
  induction matched with
  | nil => simp
  | cons leg rest ih =>
    intro entry member
    rcases List.mem_cons.mp member with rfl | inside
    · exact leg.1
    · exact ih entry inside

theorem legs_sum (matched : List.Forall₂ (IsLeg l transactionId assetId) postings legs) (t : Nat) :
    sumWhere (ofTransaction t) LedgerEntry.amount legs =
      if t = transactionId then (postings.map Posting.amount).sum else 0 := by
  induction matched with
  | nil => simp
  | cons leg rest ih =>
    obtain ⟨transaction, amount, -⟩ := leg
    rw [sumWhere_cons, ih]
    by_cases same : t = transactionId
    · simp [share, ofTransaction, transaction, amount, same]
    · simp [share, ofTransaction, transaction, same, Ne.symm same]

theorem posted_ofAsset (asset : Nat) :
    posted (ofAsset asset) assetId postings =
      if assetId = asset then (postings.map Posting.amount).sum else 0 := by
  induction postings with
  | nil => simp [posted]
  | cons posting rest ih =>
    unfold posted at ih ⊢
    rw [sumWhere_cons, ih]
    by_cases same : assetId = asset <;> simp [share, ofAsset, same]

end Legs

theorem Books.posted {l l' : Ledger} {input : PostTransactionInput} {assetId : Nat} (books : l.Books)
    (effect : Posted l l' input assetId) : l'.Books := by
  obtain ⟨legs, entries, matched⟩ := effect.entries
  refine ⟨effect.follows books.follows, ?_, ?_, ?_⟩
  · intro entry member
    rw [entries] at member
    rw [Table.size_of_append effect.transactions]
    rcases List.mem_append.mp member with old | new
    · exact Nat.lt_succ_of_lt (books.named entry old)
    · rw [legs_transaction matched entry new]
      exact Nat.lt_succ_self _
  · intro t
    rw [entries, sumWhere_append, books.balanced, legs_sum matched, effect.balanced]
    simp
  · intro asset
    rw [effect.held, books.zeroSum, posted_ofAsset, effect.balanced]
    simp

theorem Books.reserved {l l' : Ledger} (books : l.Books) (transactions : l'.transactions = l.transactions)
    (entries : l'.entries = l.entries) (accounts : Reserved.bare l'.accounts = Reserved.bare l.accounts) :
    l'.Books := by
  have row : ∀ i account, l'.accounts.get? i = some account →
      ∃ account', l.accounts.get? i = some account' ∧ account'.cachedBalance = account.cachedBalance := by
    intro i account found
    obtain ⟨account', found', same⟩ := Reserved.bare_get? accounts.symm found
    have balance : (Holder.setReserved 0 account').cachedBalance =
        (Holder.setReserved 0 account).cachedBalance := by rw [same]
    exact ⟨account', found', balance⟩
  refine ⟨⟨?_, ?_, ?_⟩, ?_, ?_, ?_⟩
  · intro i account found
    obtain ⟨account', found', same⟩ := row i account found
    rw [entries, ← same, books.follows.sum i account' found']
  · intro i account entry found latest
    obtain ⟨account', found', same⟩ := row i account found
    rw [entries] at latest
    rw [← same, books.follows.last i account' entry found' latest]
  · rw [entries, Reserved.bare_size accounts]
    exact books.follows.inside
  · rw [entries, transactions]
    exact books.named
  · rw [entries]
    exact books.balanced
  · intro assetId
    rw [← books.zeroSum assetId]
    exact Reserved.bare_sum accounts _ _ fun _ => rfl

theorem Books.opened {l l' : Ledger} (books : l.Books) {assetId : Nat} {ref : AccountRef}
    (transactions : l'.transactions = l.transactions) (entries : l'.entries = l.entries)
    (accounts : l'.accounts = l.accounts ∨ l'.accounts.rows = l.accounts.rows ++ [openedAccount assetId ref]) :
    l'.Books := by
  refine ⟨books.follows.opened accounts entries, ?_, ?_, ?_⟩
  · rw [entries, transactions]
    exact books.named
  · rw [entries]
    exact books.balanced
  · intro asset
    rw [← books.zeroSum asset]
    rcases accounts with same | appended
    · rw [held, same, held]
    · simp [held, appended, share, openedAccount]

theorem Books.trigger {l l' : Ledger} (books : l'.Books) : checkLedgerTransactionBalance l l' = true := by
  unfold checkLedgerTransactionBalance
  rw [List.all_eq_true]
  intro entry _
  exact decide_eq_true (books.balanced entry.transactionId)

def initial (assets : Table Asset) : Ledger where
  assets := assets
  funds := { holders := .empty, reservations := .empty }
  transactions := .empty
  entries := .empty

theorem Books.initial (assets : Table Asset) : (Ledger.initial assets).Books := by
  refine ⟨⟨?_, ?_, ?_⟩, ?_, ?_, ?_⟩ <;>
    simp [Ledger.initial, Table.empty, Table.get?, Ledger.accounts, held]

section Runs

def postAll : List PostTransactionInput → Tx Ledger Fault (List PostTransactionResult)
  -- the calls that one serializable transaction makes, in order
  | [] => pure []
  | input :: rest => do
    let result ← postTransaction input
    let results ← postAll rest
    pure (result :: results)

structure History where
  -- a ledger, with every call that committed and, among them, those that were not replays
  ledger : Ledger
  presented : List PostTransactionInput
  applied : List PostTransactionInput

def whole : Field Ledger Ledger where
  get l := l
  set l _ := l

def newlyPosted (inputs : List PostTransactionInput) (results : List PostTransactionResult) :
    List PostTransactionInput :=
  ((inputs.zip results).filter fun pair => !pair.2.alreadyPosted).map Prod.fst

def History.step (h : History) (inputs : List PostTransactionInput) : History :=
  match (runTransaction whole (postAll inputs)).run h.ledger with
  | .ok (results, ledger) =>
    { ledger := ledger
      presented := h.presented ++ inputs
      applied := h.applied ++ newlyPosted inputs results }
  | .error _ => h

def History.initial (assets : Table Asset) : History :=
  { ledger := Ledger.initial assets, presented := [], applied := [] }

def hasKey (key : IdempotencyKey) (input : PostTransactionInput) : Bool :=
  decide (input.idempotencyKey = key)

def PostTransactionInput.effect (input : PostTransactionInput) (assets : Table Asset) (ref : AccountRef)
    (assetId : Nat) : ℚ :=
  -- what the postings of a call amount to on one account
  match assets.find? fun asset => decide (asset.symbol = input.assetSymbol) with
  | some (i, _) => posted (only ref assetId) i input.postings
  | none => 0

/-- The stored transactions are the applied calls, each with its own legs, and nothing else moved a
balance. -/
structure Recorded (h : History) : Prop where
  size : h.ledger.transactions.size = h.applied.length
  legs : ∀ t input, h.applied[t]? = some input → ∃ assetId,
    h.ledger.transactions.get? t = some (input.row assetId) ∧
      List.Forall₂ (IsLeg h.ledger t assetId) input.postings (h.ledger.entries.rows.filter (ofTransaction t))
  once : ∀ input ∈ h.presented, (h.applied.filter (hasKey input.idempotencyKey)).length = 1
  balance : ∀ ref assetId, balanceOf h.ledger ref assetId =
    (h.applied.map fun input => input.effect h.ledger.assets ref assetId).sum

structure Conserved (h : History) : Prop where
  -- the claim about every state of a run
  zeroSum : ∀ assetId, sumWhere (fun account => decide (account.assetId = assetId))
    LedgerAccount.cachedBalance h.ledger.accounts.rows = 0
  entrySum : ∀ i account, h.ledger.accounts.get? i = some account →
    account.cachedBalance = sumWhere (ofAccount i) LedgerEntry.amount h.ledger.entries.rows
  lastEntry : ∀ i account entry, h.ledger.accounts.get? i = some account →
    (h.ledger.entries.rows.filter (ofAccount i)).getLast? = some entry →
      entry.balanceAfter = account.cachedBalance
  balanced : ∀ t row, h.ledger.transactions.get? t = some row →
    sumWhere (ofTransaction t) LedgerEntry.amount h.ledger.entries.rows = 0
  nonneg : ∀ account ∈ h.ledger.accounts.rows, account.owner.isHouse = false → 0 ≤ account.cachedBalance
  oneTransaction : ∀ key, (h.ledger.transactions.rows.filter fun t =>
    decide (t.idempotencyKey = key)).length ≤ 1
  recorded : Recorded h

theorem oneTransaction (l : Ledger) (key : IdempotencyKey) :
    (l.transactions.rows.filter fun t => decide (t.idempotencyKey = key)).length ≤ 1 := by
  by_cases present : ∃ t ∈ l.transactions.rows, t.idempotencyKey = key
  · obtain ⟨t, member, same⟩ := present
    rw [Table.filter_of_unique member (by simp [same])]
    · simp
    · intro a b first second
      simp only [decide_eq_true_eq] at first second
      simp [RowSpec.clash, first, second]
  · have none : (l.transactions.rows.filter fun t => decide (t.idempotencyKey = key)) = [] := by
      refine List.filter_eq_nil_iff.mpr ?_
      intro t member same
      exact present ⟨t, member, by simpa using same⟩
    simp [none]

theorem Recorded.keys {h : History} (recorded : Recorded h) :
    h.applied.map PostTransactionInput.idempotencyKey =
      h.ledger.transactions.rows.map LedgerTransaction.idempotencyKey := by
  refine List.ext_getElem? ?_
  intro t
  rw [List.getElem?_map, List.getElem?_map]
  cases applied : h.applied[t]? with
  | some input =>
    obtain ⟨assetId, found, -⟩ := recorded.legs t input applied
    have position : h.ledger.transactions.rows[t]? = some (input.row assetId) := found
    rw [position]
    rfl
  | none =>
    have outside := List.getElem?_eq_none_iff.mp applied
    have size : h.ledger.transactions.rows.length = h.applied.length := recorded.size
    rw [List.getElem?_eq_none (by omega)]
    rfl

theorem Recorded.count {h : History} (recorded : Recorded h) (key : IdempotencyKey) :
    (h.applied.filter (hasKey key)).length =
      (h.ledger.transactions.rows.filter fun t => decide (t.idempotencyKey = key)).length := by
  have same := congrArg (List.countP fun k => decide (k = key)) recorded.keys
  rw [List.countP_map, List.countP_map] at same
  rw [← List.countP_eq_length_filter, ← List.countP_eq_length_filter]
  exact same

theorem Recorded.replayed {h : History} (recorded : Recorded h) {input : PostTransactionInput}
    (known : ∃ t ∈ h.ledger.transactions.rows, t.idempotencyKey = input.idempotencyKey) :
    Recorded { h with presented := h.presented ++ [input] } := by
  -- a replay: the key is there, and only the list of presented calls grows
  refine ⟨recorded.size, recorded.legs, ?_, recorded.balance⟩
  intro other member
  rcases List.mem_append.mp member with old | new
  · exact recorded.once other old
  · rw [List.mem_singleton.mp new]
    obtain ⟨t, inside, same⟩ := known
    have some : t ∈ h.ledger.transactions.rows.filter fun t =>
        decide (t.idempotencyKey = input.idempotencyKey) := by
      simp [inside, same]
    have := List.length_pos_of_mem some
    have := oneTransaction h.ledger input.idempotencyKey
    have count := recorded.count input.idempotencyKey
    simp only at count ⊢
    omega

theorem Recorded.posted {h : History} {l' : Ledger} {input : PostTransactionInput} {assetId : Nat}
    (books : h.ledger.Books) (recorded : Recorded h) (effect : Posted h.ledger l' input assetId) :
    Recorded ⟨l', h.presented ++ [input], h.applied ++ [input]⟩ := by
  obtain ⟨legs, entries, matched⟩ := effect.entries
  have older : ∀ entry ∈ h.ledger.entries.rows, ofTransaction h.ledger.transactions.size entry = false := by
    intro entry member
    have := books.named entry member
    simp only [ofTransaction, decide_eq_false_iff_not]
    omega
  have newer : ∀ entry ∈ legs, ofTransaction h.ledger.transactions.size entry = true := by
    intro entry member
    simp [ofTransaction, legs_transaction matched entry member]
  have fresh : ∀ other ∈ h.applied, other.idempotencyKey ≠ input.idempotencyKey := by
    intro other member same
    have listed : input.idempotencyKey ∈ h.ledger.transactions.rows.map LedgerTransaction.idempotencyKey := by
      rw [← recorded.keys, ← same]
      exact List.mem_map_of_mem member
    obtain ⟨t, inside, key⟩ := List.mem_map.mp listed
    exact effect.fresh t inside key
  refine ⟨?_, ?_, ?_, ?_⟩
  · rw [Table.size_of_append effect.transactions, recorded.size]
    simp
  · intro t other position
    simp only [entries, List.filter_append]
    rw [Table.get?_of_append effect.transactions]
    by_cases last : t = h.ledger.transactions.size
    · subst last
      have this : other = input := by
        simpa [recorded.size] using position.symm
      subst this
      refine ⟨assetId, by simp, ?_⟩
      rw [List.filter_eq_nil_iff.mpr fun entry member => by simp [older entry member],
        List.filter_eq_self.mpr newer, List.nil_append]
      exact matched
    · have inside : t < h.applied.length := by
        have bound : t < (h.applied ++ [input]).length := by
          by_contra outside
          rw [List.getElem?_eq_none (not_lt.mp outside)] at position
          cases position
        have size := recorded.size
        simp only [List.length_append, List.length_singleton] at bound
        omega
      rw [List.getElem?_append_left inside] at position
      obtain ⟨asset, found, old⟩ := recorded.legs t other position
      refine ⟨asset, by simp [last, found], ?_⟩
      have none : legs.filter (ofTransaction t) = [] := by
        refine List.filter_eq_nil_iff.mpr ?_
        intro entry member
        have := legs_transaction matched entry member
        simp [ofTransaction, this, Ne.symm last]
      rw [none, List.append_nil]
      exact old.imp fun _ _ leg => leg.carried (effect.accounts.map fun columns => (columns.1, columns.2.1))
  · intro other member
    simp only [List.filter_append, List.length_append]
    rcases List.mem_append.mp member with old | new
    · have one := recorded.once other old
      have present : 0 < (h.applied.filter (hasKey other.idempotencyKey)).length := by omega
      obtain ⟨same, inside⟩ := List.exists_mem_of_length_pos present
      obtain ⟨applied, key⟩ := List.mem_filter.mp inside
      have different : input.idempotencyKey ≠ other.idempotencyKey := by
        intro clash
        exact fresh same applied ((of_decide_eq_true key).trans clash.symm)
      simp [hasKey, one, different]
    · rw [List.mem_singleton.mp new]
      rw [List.filter_eq_nil_iff.mpr fun other applied => by simp [hasKey, fresh other applied]]
      simp [hasKey]
  · intro ref asset
    obtain ⟨row, named⟩ := effect.asset
    have same : l'.assets = h.ledger.assets := effect.assets
    simp only [same, List.map_append, List.map_singleton, List.sum_append, List.sum_singleton]
    rw [← recorded.balance, balanceOf, effect.held, PostTransactionInput.effect, named]
    rfl

theorem postAll_recorded {h : History} (inputs : List PostTransactionInput) {l' : Ledger}
    {results : List PostTransactionResult} (books : h.ledger.Books) (recorded : Recorded h)
    (done : (postAll inputs).run h.ledger = .ok (results, l')) :
    l'.Books ∧ Recorded ⟨l', h.presented ++ inputs, h.applied ++ newlyPosted inputs results⟩ := by
  induction inputs generalizing h results with
  | nil =>
    cases done
    simpa [newlyPosted] using And.intro books recorded
  | cons input rest ih =>
    simp only [postAll, run_bind_ok, run_pure] at done
    obtain ⟨result, l₁, first, others, l₂, ran, same⟩ := done
    cases same
    rcases postTransaction_ok first with ⟨replay, rfl, t, found, key⟩ | ⟨posted, -, assetId, effect⟩
    · have next := ih (h := { h with presented := h.presented ++ [input] }) books
        (recorded.replayed ⟨t, Table.get?_mem found, key⟩) ran
      simpa [newlyPosted, replay] using next
    · have next := ih (h := ⟨l₁, h.presented ++ [input], h.applied ++ [input]⟩) (books.posted effect)
        (recorded.posted books effect) ran
      simpa [newlyPosted, posted] using next

theorem History.step_recorded {h : History} (inputs : List PostTransactionInput) (books : h.ledger.Books)
    (recorded : Recorded h) : (h.step inputs).ledger.Books ∧ Recorded (h.step inputs) := by
  unfold History.step
  cases ran : (runTransaction whole (postAll inputs)).run h.ledger with
  | error e => exact ⟨books, recorded⟩
  | ok pair =>
    obtain ⟨results, l'⟩ := pair
    exact postAll_recorded inputs books recorded (runTransaction_ok ran)

theorem Books.conserved {h : History} (books : h.ledger.Books) (recorded : Recorded h) : Conserved h where
  zeroSum := books.zeroSum
  entrySum := books.follows.sum
  lastEntry := books.follows.last
  balanced t _ _ := books.balanced t
  nonneg _ member owned := (LedgerAccount.bounds member owned).1
  oneTransaction := oneTransaction h.ledger
  recorded := recorded

/-- Whatever calls are made, in whatever order and grouping, every state conserves. -/
theorem postTransaction_conserves (assets : Table Asset) (calls : List (List PostTransactionInput)) :
    Conserved (calls.foldl History.step (History.initial assets)) := by
  have start : Recorded (History.initial assets) := by
    refine ⟨rfl, ?_, ?_, ?_⟩ <;> simp [History.initial, balanceOf, held, Ledger.initial, Table.empty]
  suffices ∀ h : History, h.ledger.Books → Recorded h → Conserved (calls.foldl History.step h) from
    this _ (Books.initial assets) start
  induction calls with
  | nil => exact fun h books recorded => books.conserved recorded
  | cons inputs rest ih =>
    intro h books recorded
    obtain ⟨books', recorded'⟩ := History.step_recorded inputs books recorded
    exact ih _ books' recorded'

end Runs

end VerdictVaut.Ledger
