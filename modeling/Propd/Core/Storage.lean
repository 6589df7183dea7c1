import Propd.Core.Value

/-!
# Storages

A storage context is a name, an instance and three callbacks, each of which may
be missing. What the callbacks do is not fixed here: a `StorageEnv` says which
replies a callback may give in a state of the outside world, and what state it
leaves. The results about a node hold for every such environment.
-/

namespace Propd

/-- The result of a get: the value and how long it may be cached. -/
abbrev GetResult := Except Errno (Value × Timestamp)

/-- The result of a set or del. -/
abbrev SetResult := Except Errno Unit

/-- The value of a get that succeeded. -/
def gotValue : GetResult → Option Value
  | .ok (v, _) => some v
  | .error _ => none

/-- `storage_ctx_t`: the callbacks are recorded by whether they are there. -/
structure StorageCtx where
  name : CString
  priv : ℕ
  hasGet : Bool
  hasSet : Bool
  hasDel : Bool
  deriving DecidableEq

/-- The storage of a child: `constructor_unix` fills in every callback. -/
def unixStorage (name : CString) (priv : ℕ) : StorageCtx := ⟨name, priv, true, true, true⟩

/-- The callbacks of all storages, over the states `σ` of what is behind them:
`some w` where the callback may give this reply, with the state `w` it leaves. -/
structure StorageEnv (σ : Type) where
  get : ℕ → CString → σ → GetResult → Option σ
  set : ℕ → CString → Value → σ → SetResult → Option σ
  del : ℕ → CString → σ → SetResult → Option σ

/-! ## The storage functions

`call` runs a callback on the instance of the storage, `deny` is the outcome of a
call that is refused before any callback runs. -/

variable {α : Type}

/-- `storage_get`: the value the callback has put out, `got` of its outcome, is formatted for
the log line. -/
def storageGet (storage : StorageCtx) (call : ℕ → Except Fault α) (got : α → Option Value)
    (deny : Errno → α) : Except Fault α :=
  if !storage.hasGet then .ok (deny EOPNOTSUPP)
  else
    match call storage.priv with
    | .error e => .error e
    | .ok r =>
      match got r with
      -- the callback failed
      | none => .ok r
      | some value =>
        match value.valueFmt with
        | .error e => .error e
        | .ok _ => .ok r

/-- `storage_set`: the value is formatted for the log line before the callback is called. -/
def storageSet (storage : StorageCtx) (value : Value) (call : ℕ → Except Fault α)
    (deny : Errno → α) : Except Fault α :=
  if !storage.hasSet then .ok (deny EOPNOTSUPP)
  else
    match value.valueFmt with
    | .error e => .error e
    | .ok _ => call storage.priv

/-- `storage_del`. The source tests the `set` callback, then calls `del`. -/
def storageDel (storage : StorageCtx) (call : ℕ → Except Fault α) (deny : Errno → α) :
    Except Fault α :=
  if !storage.hasSet then .ok (deny EOPNOTSUPP)
  else if !storage.hasDel then .error .nullDeref
  else call storage.priv

/-- A storage call is refused, or it is what the callback does, and the value was formatted. -/
theorem storageGet_ok {storage : StorageCtx} {call : ℕ → Except Fault α} {got : α → Option Value}
    {deny : Errno → α} {r : α} (h : storageGet storage call got deny = .ok r) :
    (storage.hasGet = false ∧ r = deny EOPNOTSUPP) ∨
      (call storage.priv = .ok r ∧ ∀ v ∈ got r, v.WellFormed) := by
  unfold storageGet at h
  split at h
  · rename_i hget
    exact .inl ⟨by simpa using hget, (Except.ok.inj h).symm⟩
  · split at h
    · cases h
    · rename_i r' hcall
      split at h
      · rename_i hgot
        cases h
        exact .inr ⟨hcall, by rw [hgot]; nofun⟩
      · rename_i value hgot
        split at h
        · cases h
        · rename_i f hfmt
          cases h
          refine .inr ⟨hcall, fun v hv => ?_⟩
          cases hgot.symm.trans hv
          exact Value.wellFormed_iff_valueFmt.mpr ⟨f, hfmt⟩

theorem storageSet_ok {storage : StorageCtx} {value : Value} {call : ℕ → Except Fault α}
    {deny : Errno → α} {r : α} (h : storageSet storage value call deny = .ok r) :
    (storage.hasSet = false ∧ r = deny EOPNOTSUPP) ∨
      (value.WellFormed ∧ call storage.priv = .ok r) := by
  unfold storageSet at h
  split at h
  · rename_i hset
    exact .inl ⟨by simpa using hset, (Except.ok.inj h).symm⟩
  · split at h
    · cases h
    · rename_i f hfmt
      exact .inr ⟨Value.wellFormed_iff_valueFmt.mpr ⟨f, hfmt⟩, h⟩

theorem storageDel_ok {storage : StorageCtx} {call : ℕ → Except Fault α} {deny : Errno → α}
    {r : α} (h : storageDel storage call deny = .ok r) :
    r = deny EOPNOTSUPP ∨ call storage.priv = .ok r := by
  unfold storageDel at h
  split at h
  · exact .inl (by cases h; rfl)
  · split at h
    · cases h
    · exact .inr h

/-- With a value that can be formatted, `storage_set` calls the callback that is there. -/
theorem storageSet_wellFormed {storage : StorageCtx} {value : Value} {call : ℕ → Except Fault α}
    {deny : Errno → α} (hset : storage.hasSet = true) (h : value.WellFormed) :
    storageSet storage value call deny = call storage.priv := by
  obtain ⟨f, hf⟩ := Value.wellFormed_iff_valueFmt.mp h
  rw [storageSet, hset, hf]
  rfl

/-- Where a value that is put out can be formatted, `storage_get` is the callback that is there. -/
theorem storageGet_wellFormed {storage : StorageCtx} {call : ℕ → Except Fault α}
    {got : α → Option Value} {deny : Errno → α} (hget : storage.hasGet = true)
    (h : ∀ r, call storage.priv = .ok r → ∀ v ∈ got r, v.WellFormed) :
    storageGet storage call got deny = call storage.priv := by
  rw [storageGet, hget]
  cases hcall : call storage.priv with
  | error e => rfl
  | ok r =>
    cases hgot : got r with
    | none => simp [hgot]
    | some value =>
      obtain ⟨f, hf⟩ := Value.wellFormed_iff_valueFmt.mp (h r hcall value hgot)
      simp [hgot, hf]

end Propd
