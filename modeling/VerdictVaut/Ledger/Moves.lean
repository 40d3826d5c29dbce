import VerdictVaut.Ledger.Conservation

set_option autoImplicit false

namespace VerdictVaut.Ledger

open Relational Relational.Tx

def reserveKey : ReferenceType → Nat → IdempotencyKey
  -- the key of the reservation behind a reference, and of its ledger transaction
  | .order, id => ⟨"order-reserve", [id]⟩
  | .withdrawal, id => ⟨"withdrawal-reserve", [id]⟩
  | _, id => ⟨"", [id]⟩

def postKey : ReferenceType → Nat → IdempotencyKey
  | .fill, id => ⟨"trade", [id]⟩
  | .completeSetMint, id => ⟨"mint", [id]⟩
  | .position, id => ⟨"settlement-payout", [id]⟩
  | .deposit, id => ⟨"deposit", [id]⟩
  | .withdrawal, id => ⟨"withdrawal-capture", [id]⟩
  | .order, id => ⟨"", [id]⟩

theorem postKey_injective {type type' : ReferenceType} {id id' : Nat}
    (same : postKey type id = postKey type' id') : type = type' ∧ id = id' := by
  cases type <;> cases type' <;> simp_all [postKey]

theorem reserveKey_order {type : ReferenceType} {id id' : Nat}
    (same : reserveKey type id = reserveKey .order id') : type = .order ∧ id = id' := by
  cases type <;> simp_all [reserveKey]

theorem reserveKey_withdrawal {type : ReferenceType} {id id' : Nat}
    (same : reserveKey type id = reserveKey .withdrawal id') : type = .withdrawal ∧ id = id' := by
  cases type <;> simp_all [reserveKey]

structure Sound (l : Ledger) : Prop where
  -- what every service keeps true of the ledger
  books : l.Books
  agrees : l.funds.Agrees
  userHeld : ∀ r ∈ l.funds.reservations.rows, ∃ account userId,
    l.accounts.get? r.holderId = some account ∧ account.owner = .user userId
  reservationKeys : ∀ r ∈ l.funds.reservations.rows,
    r.idempotencyKey = reserveKey r.referenceType r.referenceId
  transactionKeys : ∀ t ∈ l.transactions.rows, t.idempotencyKey = postKey t.referenceType t.referenceId

structure Moved (kinds : ReferenceType → Bool) (l l' : Ledger) : Prop where
  -- a change of the ledger that only concerns references of some kinds
  assets : l'.assets = l.assets
  accounts : Table.Carries (fun a => (a.owner, a.assetId)) l.accounts l'.accounts
  reservations : ∀ type id, kinds type = false → l'.funds.forRef type id = l.funds.forRef type id
  transactions : ∃ new, l'.transactions.rows = l.transactions.rows ++ new ∧
    ∀ t ∈ new, kinds t.referenceType = true
  entries : ∀ t, t < l.transactions.size →
    l'.entries.rows.filter (ofTransaction t) = l.entries.rows.filter (ofTransaction t)
  sound : l.Sound → l'.Sound

section

variable {kinds : ReferenceType → Bool} {l l' l'' : Ledger}

theorem Moved.refl (kinds : ReferenceType → Bool) (l : Ledger) : Moved kinds l l :=
  ⟨rfl, .refl _ _, fun _ _ _ => rfl, ⟨[], by simp, by simp⟩, fun _ _ => rfl, id⟩

theorem Moved.size (moved : Moved kinds l l') : l.transactions.size ≤ l'.transactions.size := by
  obtain ⟨new, rows, -⟩ := moved.transactions
  simp [Table.size, rows]

theorem Moved.trans (first : Moved kinds l l') (second : Moved kinds l' l'') : Moved kinds l l'' := by
  obtain ⟨new, rows, mine⟩ := first.transactions
  obtain ⟨new', rows', mine'⟩ := second.transactions
  refine ⟨second.assets.trans first.assets, first.accounts.trans second.accounts, ?_, ?_, ?_,
    second.sound ∘ first.sound⟩
  · intro type id outside
    rw [second.reservations type id outside, first.reservations type id outside]
  · refine ⟨new ++ new', by rw [rows', rows, List.append_assoc], ?_⟩
    intro t member
    exact (List.mem_append.mp member).elim (mine t) (mine' t)
  · intro t inside
    rw [second.entries t (inside.trans_le first.size), first.entries t inside]

def transactionsFor (l : Ledger) (type : ReferenceType) (id : Nat) : List LedgerTransaction :=
  -- the stored transactions about one reference
  l.transactions.rows.filter fun t => decide (t.referenceType = type) && decide (t.referenceId = id)

theorem Moved.transactionsFor (moved : Moved kinds l l') {type : ReferenceType} (id : Nat)
    (outside : kinds type = false) : l'.transactionsFor type id = l.transactionsFor type id := by
  obtain ⟨new, rows, mine⟩ := moved.transactions
  have none : (new.filter fun t => decide (t.referenceType = type) && decide (t.referenceId = id)) = [] := by
    refine List.filter_eq_nil_iff.mpr ?_
    intro t member picked
    simp only [Bool.and_eq_true, decide_eq_true_eq] at picked
    rw [← picked.1, mine t member] at outside
    cases outside
  rw [Ledger.transactionsFor, rows, List.filter_append, none, List.append_nil, Ledger.transactionsFor]

theorem Moved.transactionsFor_of (moved : Moved kinds l l') {type : ReferenceType} (id : Nat)
    (outside : ∀ t ∈ l'.transactions.rows, t ∈ l.transactions.rows ∨ t.referenceType ≠ type) :
    l'.transactionsFor type id = l.transactionsFor type id := by
  obtain ⟨new, rows, -⟩ := moved.transactions
  have none : (new.filter fun t => decide (t.referenceType = type) && decide (t.referenceId = id)) = [] := by
    refine List.filter_eq_nil_iff.mpr ?_
    intro t member picked
    simp only [Bool.and_eq_true, decide_eq_true_eq] at picked
    rcases outside t (by simp [rows, member]) with old | other
    · -- a stored transaction is not stored a second time
      have distinct := l'.transactions.distinct
      rw [rows] at distinct
      have apart := (List.pairwise_append.mp distinct).2.2 t old t member
      simp [RowSpec.clash] at apart
    · exact other picked.1
  rw [Ledger.transactionsFor, rows, List.filter_append, none, List.append_nil, Ledger.transactionsFor]

theorem userHeld_carried {accounts accounts' : Table LedgerAccount}
    (carried : Table.Carries (fun a => (a.owner, a.assetId)) accounts accounts') {holderId : Nat}
    (held : ∃ account userId, accounts.get? holderId = some account ∧ account.owner = .user userId) :
    ∃ account userId, accounts'.get? holderId = some account ∧ account.owner = .user userId := by
  obtain ⟨account, userId, found, owner⟩ := held
  obtain ⟨account', found', same⟩ := carried _ _ found
  simp only [Prod.mk.injEq] at same
  exact ⟨account', userId, found', same.1.trans owner⟩

theorem Moved.opened {assetId : Nat} {ref : AccountRef} {accounts : Table LedgerAccount}
    (rows : accounts = l.accounts ∨ accounts.rows = l.accounts.rows ++ [openedAccount assetId ref]) :
    Moved kinds l { l with funds := { l.funds with holders := accounts } } := by
  have carried : Table.Carries (fun a => (a.owner, a.assetId)) l.accounts accounts := by
    rcases rows with rfl | appended
    · exact .refl _ _
    · exact .of_append appended
  refine ⟨rfl, carried, fun _ _ _ => rfl, ⟨[], by simp, by simp⟩, fun _ _ => rfl, ?_⟩
  · intro sound
    refine ⟨sound.books.opened rfl rfl rows, ?_, fun r member => userHeld_carried carried (sound.userHeld r member),
      sound.reservationKeys, sound.transactionKeys⟩
    rcases rows with rfl | appended
    · exact sound.agrees
    · exact sound.agrees.insertHolder rfl rfl appended

theorem Moved.rewritten {funds : Reserved LedgerAccount} {k : Nat} {old new : Reservation}
    (rewritten : Reserved.Rewritten l.funds funds k old new) (mine : kinds old.referenceType = true) :
    Moved kinds l { l with funds := funds } := by
  have carried : Table.Carries (fun a => (a.owner, a.assetId)) l.accounts funds.holders := by
    obtain ⟨holder, held, holders⟩ := rewritten.holder
    exact .of_set held holders rfl
  refine ⟨rfl, carried, ?_, ⟨[], by simp, by simp⟩, fun _ _ => rfl, ?_⟩
  · intro type id outside
    refine rewritten.others ?_
    rw [Bool.eq_false_iff, ne_eq, Reserved.isFor_iff]
    rintro ⟨rfl, -⟩
    rw [mine] at outside
    cases outside
  · intro sound
    refine ⟨sound.books.reserved rfl rfl rewritten.bare, rewritten.agrees sound.agrees, ?_, ?_,
      sound.transactionKeys⟩ <;> intro r member <;> rw [rewritten.reservations] at member <;>
      rcases List.mem_or_eq_of_mem_set member with old | rfl
    · exact userHeld_carried carried (sound.userHeld r old)
    · rw [rewritten.holderId]
      exact userHeld_carried carried (sound.userHeld _ (Table.get?_mem rewritten.found))
    · exact sound.reservationKeys r old
    · rw [rewritten.idempotencyKey, rewritten.referenceType, rewritten.referenceId]
      exact sound.reservationKeys _ (Table.get?_mem rewritten.found)

theorem Moved.earmarked {funds : Reserved LedgerAccount} {holderId reservationId : Nat} {existed : Bool}
    {holder : LedgerAccount} {input : Reserved.ReserveInput} (held : l.accounts.get? holderId = some holder)
    (done : (Reserved.earmark holderId holder input).run l.funds = .ok ((reservationId, existed), funds))
    (owned : ∃ userId, holder.owner = .user userId) (mine : kinds input.referenceType = true)
    (key : input.idempotencyKey = reserveKey input.referenceType input.referenceId) :
    Moved kinds l { l with funds := funds } := by
  have agrees : l.funds.Agrees → funds.Agrees := fun agrees => Reserved.earmark_agrees agrees held done
  rcases Reserved.earmark_ok done with ⟨-, rfl, -⟩ | ⟨-, -, -, -, -, reservations, inside, holders⟩
  · exact .refl _ _
  have bare : Reserved.bare funds.holders = Reserved.bare l.funds.holders := Reserved.bare_of_set held holders
  have carried : Table.Carries (fun a => (a.owner, a.assetId)) l.accounts funds.holders :=
    .of_set held holders rfl
  refine ⟨rfl, carried, ?_, ⟨[], by simp, by simp⟩, fun _ _ => rfl, ?_⟩
  · intro type id outside
    simp only [Reserved.forRef, reservations, List.filter_append]
    have different : input.referenceType ≠ type := by
      rintro rfl
      rw [mine] at outside
      cases outside
    simp [Reserved.isFor, Reserved.ReserveInput.row, different]
  · intro sound
    refine ⟨sound.books.reserved rfl rfl bare, agrees sound.agrees, ?_, ?_, sound.transactionKeys⟩ <;>
      intro r member <;> rw [reservations] at member <;> rcases List.mem_append.mp member with old | new
    · exact userHeld_carried carried (sound.userHeld r old)
    · rw [List.mem_singleton.mp new]
      obtain ⟨userId, owner⟩ := owned
      exact userHeld_carried carried ⟨holder, userId, held, owner⟩
    · exact sound.reservationKeys r old
    · rw [List.mem_singleton.mp new]
      exact key

theorem Moved.posted {input : PostTransactionInput} {assetId : Nat} (effect : Posted l l' input assetId)
    (mine : kinds input.referenceType = true)
    (key : input.idempotencyKey = postKey input.referenceType input.referenceId) : Moved kinds l l' := by
  obtain ⟨legs, entries, matched⟩ := effect.entries
  refine ⟨effect.assets, effect.accounts.map fun c => (c.1, c.2.1), ?_,
    ⟨[input.row assetId], effect.transactions, by simpa [PostTransactionInput.row] using mine⟩, ?_, ?_⟩
  · intro type id _
    rw [Reserved.forRef, effect.reservations, Reserved.forRef]
  · intro t inside
    have none : legs.filter (ofTransaction t) = [] := by
      refine List.filter_eq_nil_iff.mpr ?_
      intro entry member
      have := legs_transaction matched entry member
      simp only [ofTransaction, this, decide_eq_true_eq]
      omega
    rw [entries, List.filter_append, none, List.append_nil]
  · intro sound
    refine ⟨sound.books.posted effect, effect.agrees sound.agrees, ?_, ?_, ?_⟩
    · intro r member
      rw [effect.reservations] at member
      exact userHeld_carried (effect.accounts.map fun c => (c.1, c.2.1)) (sound.userHeld r member)
    · rw [effect.reservations]
      exact sound.reservationKeys
    · intro t member
      rw [effect.transactions] at member
      rcases List.mem_append.mp member with old | new
      · exact sound.transactionKeys t old
      · rw [List.mem_singleton.mp new]
        exact key

theorem Moved.postTransaction {input : PostTransactionInput} {result : PostTransactionResult}
    (done : (Ledger.postTransaction input).run l = .ok (result, l')) (mine : kinds input.referenceType = true)
    (key : input.idempotencyKey = postKey input.referenceType input.referenceId) : Moved kinds l l' := by
  rcases postTransaction_ok done with ⟨-, rfl, -⟩ | ⟨-, -, assetId, effect⟩
  · exact .refl _ _
  · exact .posted effect mine key

theorem transactionsFor_posted {input : PostTransactionInput} {assetId : Nat}
    (effect : Posted l l' input assetId) (type : ReferenceType) (id : Nat) :
    l'.transactionsFor type id = l.transactionsFor type id ++
      if input.referenceType = type ∧ input.referenceId = id then [input.row assetId] else [] := by
  simp only [transactionsFor, effect.transactions, List.filter_append, List.filter_cons, List.filter_nil,
    PostTransactionInput.row, Bool.and_eq_true, decide_eq_true_eq]

theorem transactionsFor_same (same : l'.transactions = l.transactions) (type : ReferenceType) (id : Nat) :
    l'.transactionsFor type id = l.transactionsFor type id := by
  rw [transactionsFor, same, transactionsFor]

theorem mem_transactionsFor (sound : l.Sound) {t : LedgerTransaction} (member : t ∈ l.transactions.rows)
    {type : ReferenceType} {id : Nat} (key : t.idempotencyKey = postKey type id) :
    t ∈ l.transactionsFor type id := by
  obtain ⟨ofType, ofId⟩ := postKey_injective ((sound.transactionKeys t member).symm.trans key)
  exact List.mem_filter.mpr ⟨member, by simp [ofType, ofId]⟩

structure PostedAs (l : Ledger) (k : Nat) (t : LedgerTransaction) (postings : List Posting) : Prop where
  -- a stored transaction and its entries: one for each posting, in order
  found : l.transactions.get? k = some t
  legs : List.Forall₂ (IsLeg l k t.assetId) postings (l.entries.rows.filter (ofTransaction k))

theorem Posted.postedAs {input : PostTransactionInput} {assetId : Nat} (effect : Posted l l' input assetId)
    (books : l.Books) : PostedAs l' l.transactions.size (input.row assetId) input.postings := by
  obtain ⟨legs, entries, matched⟩ := effect.entries
  refine ⟨(Table.get?_of_append effect.transactions _).trans (if_pos rfl), ?_⟩
  have none : l.entries.rows.filter (ofTransaction l.transactions.size) = [] := by
    refine List.filter_eq_nil_iff.mpr ?_
    intro entry member
    simpa [ofTransaction] using Nat.ne_of_lt (books.named entry member)
  have all : legs.filter (ofTransaction l.transactions.size) = legs := by
    refine List.filter_eq_self.mpr ?_
    intro entry member
    simpa [ofTransaction] using legs_transaction matched entry member
  rw [entries, List.filter_append, none, all, List.nil_append]
  exact matched

theorem PostedAs.moved {k : Nat} {t : LedgerTransaction} {postings : List Posting} (posted : PostedAs l k t postings)
    (moved : Moved kinds l l') : PostedAs l' k t postings := by
  obtain ⟨new, rows, -⟩ := moved.transactions
  have inside := Table.get?_lt posted.found
  refine ⟨?_, ?_⟩
  · have found := posted.found
    unfold Table.get? at found ⊢
    rw [rows, List.getElem?_append_left inside]
    exact found
  · rw [moved.entries k inside]
    exact posted.legs.imp fun _ _ leg => leg.carried moved.accounts

end

section Balances

variable {l : Ledger} {funds : Reserved LedgerAccount} {k : Nat} {old new : Reservation}

theorem balanceOf_rewritten (rewritten : Reserved.Rewritten l.funds funds k old new) (ref : AccountRef)
    (assetId : Nat) : balanceOf { l with funds := funds } ref assetId = balanceOf l ref assetId :=
  Reserved.bare_sum rewritten.bare _ _ fun _ => rfl

theorem reservedOf_rewritten (rewritten : Reserved.Rewritten l.funds funds k old new) {account : LedgerAccount}
    (held : l.accounts.get? old.holderId = some account) (ref : AccountRef) (assetId : Nat) :
    reservedOf { l with funds := funds } ref assetId = reservedOf l ref assetId -
      if only ref assetId account.owner account.assetId then Reserved.hold old - Reserved.hold new else 0 := by
  -- the reserved balance of the holder falls by what the reservation no longer holds back
  obtain ⟨holder, found, holders⟩ := rewritten.holder
  have same : holder = account := by
    rw [Ledger.accounts, found] at held
    exact Option.some.inj held
  subst same
  unfold reservedOf
  change sumWhere _ _ funds.holders.rows = _
  rw [holders, sumWhere_set _ _ _ _ _ _ found]
  simp only [share, Holder.setReserved, Holder.reserved]
  split <;> ring

theorem Sound.reservedOf_eq_zero (sound : l.Sound) {ref : AccountRef} (other : ∀ userId, ref ≠ .user userId)
    (assetId : Nat) : reservedOf l ref assetId = 0 := by
  refine sumWhere_eq_zero _ _ _ ?_
  intro account member
  unfold share
  split
  next picked =>
    simp only [only, Bool.and_eq_true, decide_eq_true_eq] at picked
    obtain ⟨i, found⟩ := Table.mem_iff_get?.mp member
    have agreed := sound.agrees.reserved i account found
    change account.reservedBalance = _ at agreed
    rw [agreed]
    refine sumWhere_eq_zero _ _ _ ?_
    intro r inside
    have elsewhere : r.holderId ≠ i := by
      rintro rfl
      obtain ⟨account', userId, found', owner⟩ := sound.userHeld r inside
      rw [found] at found'
      cases found'
      exact other userId (picked.1.symm.trans owner)
    simp [share, elsewhere]
  next => rfl

end Balances

section Reserving

variable {l l' : Ledger} {request : ReserveFunds} {reservationId : Nat} {existed : Bool}

/-- `reserve` adds a reservation on the user's account, unless its key is taken. -/
theorem reserve_ok (kinds : ReferenceType → Bool)
    (done : (reserve request).run l = .ok ((reservationId, existed), l'))
    (mine : kinds request.input.referenceType = true)
    (key : request.input.idempotencyKey = reserveKey request.input.referenceType request.input.referenceId) :
    Moved kinds l l' ∧ (∀ ref asset, balanceOf l' ref asset = balanceOf l ref asset) ∧
      l'.transactions = l.transactions ∧ ∃ assetId asset,
      l.assets.find? (fun asset => decide (asset.symbol = request.assetSymbol)) = some (assetId, asset) ∧
      ((existed = true ∧ ∃ r ∈ l.funds.reservations.rows, r.idempotencyKey = request.input.idempotencyKey) ∨
        (existed = false ∧ 0 < request.input.amount ∧ ∃ holderId account,
          l'.accounts.get? holderId = some account ∧ account.owner = .user request.userId ∧
          account.assetId = assetId ∧
          l'.funds.reservations.rows = l.funds.reservations.rows ++ [request.input.row holderId])) := by
  simp only [reserve, run_bind_ok, run_throwIf_ok] at done
  obtain ⟨_, _, ⟨positive, rfl⟩, ⟨assetId, asset⟩, _, looked, ⟨accountId, account⟩, _, resolved, rest⟩ := done
  obtain ⟨same, named⟩ := assetBySymbol_ok looked
  rw [same] at resolved
  obtain ⟨accounts, rfl, found, owner, ofAsset, rows⟩ := resolveAccount_ok resolved
  rw [run_zoom_ok] at rest
  obtain ⟨funds, marked, rfl⟩ := rest
  have opened : Moved kinds l { l with funds := { l.funds with holders := accounts } } := .opened rows
  have earmarked := opened.trans (.earmarked found marked ⟨request.userId, owner⟩ mine key)
  have balanceOpened : ∀ ref other, balanceOf { l with funds := { l.funds with holders := accounts } } ref other =
      balanceOf l ref other := by
    intro ref other
    rcases rows with rfl | appended
    · rfl
    · simp [balanceOf, held, appended, share, openedAccount]
  rcases Reserved.earmark_ok marked with ⟨rfl, rfl, r, position, same⟩ | ⟨rfl, -, -, -, -, added, inside, holders⟩
  · exact ⟨earmarked, balanceOpened, rfl, assetId, asset, named, .inl ⟨rfl, r, Table.get?_mem position, same⟩⟩
  · refine ⟨earmarked, ?_, rfl, assetId, asset, named, .inr ⟨rfl, not_le.mp positive, accountId, _,
      Table.get?_of_set holders inside accountId |>.trans (if_pos rfl), owner, ofAsset, added⟩⟩
    intro ref other
    refine Eq.trans ?_ (balanceOpened ref other)
    exact Reserved.bare_sum (Reserved.bare_of_set found holders) _ _ fun _ => rfl

end Reserving

end VerdictVaut.Ledger
