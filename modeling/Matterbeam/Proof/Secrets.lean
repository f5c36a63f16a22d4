import Matterbeam.Proof.OnePipeline

/-!
# The secrets that are recovered

`recover_secrets` goes through the values that the last run resolved. It takes one secret for each
environment key, and tries the first entry of the key only: the key counts as seen before it is
known whether the entry has a value.

* `mem_recoverItems`: an item is what the first entry of its key has in the store.
* `recoverItems_nodup`: no key is recovered twice.
* `recovers_iff`: **when every secret that has a value is recovered**.
* `dropped_secret`: a secret that is not, as another spelling of its key comes first.
-/

namespace Matterbeam

/-- The entries of the trace that are to be recovered. -/
def remaining (values : List ResolvedValue) : List ResolvedValue := values.filter ResolvedValue.isRecovered

/-- Those of an environment key. -/
def entriesOf (machine : Local) (values : List ResolvedValue) (key : String) : List ResolvedValue :=
  (remaining values).filter fun value => envKey machine.upper value = key

/-- What the store has for an entry. -/
def storeValue (machine : Local) (value : ResolvedValue) : Option String := machine.secrets (dottedKey value)

/-- Secret recovery neither drops nor repeats a secret. -/
structure Recovers (machine : Local) (values : List ResolvedValue) (items : List SecretItem) : Prop where
  /-- No key is returned twice, so that all that is returned is submitted. -/
  distinct : (items.map SecretItem.key).Nodup
  submitted : (submitted items).entries.length = items.length
  /-- An item stems from a secret that is not of a destination. -/
  stems : ∀ item ∈ items, ∃ value ∈ values, value.isSecretHint = true ∧ value.sections.head? ≠ some "destination" ∧
    envKey machine.upper value = item.key ∧ storeValue machine value = some item.value
  /-- A key is returned if one of its entries has a value, with that of the first that has one. -/
  complete : ∀ key secret, ⟨key, secret⟩ ∈ items ↔
    (entriesOf machine values key).findSome? (storeValue machine) = some secret

section

variable {machine : Local} {values : List ResolvedValue}

/-! ## The loop -/

theorem entriesOf_cons_pos {value : ResolvedValue} {key : String} (hr : value.isRecovered = true)
    (hk : envKey machine.upper value = key) :
    entriesOf machine (value :: values) key = value :: entriesOf machine values key := by
  unfold entriesOf remaining
  rw [List.filter_cons_of_pos hr, List.filter_cons_of_pos (by simpa using hk)]

theorem entriesOf_cons_neg {value : ResolvedValue} {key : String}
    (h : value.isRecovered = false ∨ envKey machine.upper value ≠ key) :
    entriesOf machine (value :: values) key = entriesOf machine values key := by
  unfold entriesOf remaining
  by_cases hr : value.isRecovered = true
  · have hk : envKey machine.upper value ≠ key := h.resolve_left (by simp [hr])
    rw [List.filter_cons_of_pos hr, List.filter_cons_of_neg (by simpa using hk)]
  · rw [List.filter_cons_of_neg hr]

/-- An entry that is not to be recovered, or whose key was seen, is skipped. -/
theorem recoverItems_skip {seen : List String} {value : ResolvedValue}
    (h : value.isRecovered = false ∨ envKey machine.upper value ∈ seen) :
    recoverItems machine seen (value :: values) = recoverItems machine seen values := by
  rw [recoverItems]
  by_cases hr : value.isRecovered = true
  · rw [if_neg (by simp [hr]), if_pos (h.resolve_left (by simp [hr]))]
  · rw [if_pos (by simp [hr])]

/-- The first entry of a key makes an item, if it has a value. The key is seen in any case. -/
theorem recoverItems_take {seen : List String} {value : ResolvedValue} (hr : value.isRecovered = true)
    (hseen : envKey machine.upper value ∉ seen) :
    recoverItems machine seen (value :: values) =
      ((storeValue machine value).toList.map fun secret => ⟨envKey machine.upper value, secret⟩) ++
        recoverItems machine (envKey machine.upper value :: seen) values := by
  rw [recoverItems, if_neg (by simp [hr]), if_neg hseen]
  unfold storeValue
  cases machine.secrets (dottedKey value) <;> rfl

/-- **An item** is what the first entry of its key has in the store. -/
theorem mem_recoverItems {seen : List String} {key secret : String} :
    ⟨key, secret⟩ ∈ recoverItems machine seen values ↔
      key ∉ seen ∧ (entriesOf machine values key).head?.bind (storeValue machine) = some secret := by
  induction values generalizing seen with
  | nil => simp [recoverItems, entriesOf, remaining]
  | cons value values ih =>
    by_cases hskip : value.isRecovered = false ∨ envKey machine.upper value ∈ seen
    · rw [recoverItems_skip hskip, ih]
      refine and_congr_right fun hkey => ?_
      -- the key of the entry is another one, if it was seen
      rw [entriesOf_cons_neg (hskip.imp_right fun hs (h : envKey machine.upper value = key) => hkey (h ▸ hs))]
    · obtain ⟨hr, hseen⟩ := not_or.1 hskip
      rw [Bool.not_eq_false] at hr
      rw [recoverItems_take hr hseen, List.mem_append, ih, List.mem_cons, not_or]
      by_cases hk : envKey machine.upper value = key
      · subst hk
        rw [entriesOf_cons_pos hr rfl]
        cases hs : storeValue machine value with
        | none => simp [hs]
        | some v => simp [hs, hseen, eq_comm]
      · rw [entriesOf_cons_neg (Or.inr hk)]
        have hne : ⟨key, secret⟩ ∉ (storeValue machine value).toList.map
            (fun secret => (⟨envKey machine.upper value, secret⟩ : SecretItem)) := by
          rintro h
          obtain ⟨v, -, hv⟩ := List.mem_map.1 h
          exact hk (congrArg SecretItem.key hv)
        rw [or_iff_right hne]
        exact ⟨fun h => ⟨h.1.2, h.2⟩, fun h => ⟨⟨Ne.symm hk, h.1⟩, h.2⟩⟩

/-- **No key is recovered twice.** -/
theorem recoverItems_nodup {seen : List String} : ((recoverItems machine seen values).map SecretItem.key).Nodup := by
  induction values generalizing seen with
  | nil => exact List.nodup_nil
  | cons value values ih =>
    by_cases hskip : value.isRecovered = false ∨ envKey machine.upper value ∈ seen
    · rw [recoverItems_skip hskip]
      exact ih
    · obtain ⟨hr, hseen⟩ := not_or.1 hskip
      rw [Bool.not_eq_false] at hr
      rw [recoverItems_take hr hseen]
      cases storeValue machine value with
      | none => exact ih
      | some secret =>
        refine List.nodup_cons.2 ⟨fun h => ?_, ih⟩
        obtain ⟨⟨key, v⟩, hitem, hkey⟩ := List.mem_map.1 h
        exact (mem_recoverItems.1 hitem).1 (List.mem_cons.2 (Or.inl hkey))

/-- All that is recovered is submitted. -/
theorem submitted_length {items : List SecretItem} (h : (items.map SecretItem.key).Nodup) :
    (submitted items).entries.length = items.length := by
  unfold submitted
  rw [Dict.ofEntries_entries (by rwa [List.map_map]), List.length_map]

/-- An item stems from the first entry of its key, which is a secret and not of a destination. -/
theorem recoverItems_stems {item : SecretItem} (h : item ∈ recoverItems machine [] values) :
    ∃ value ∈ values, value.isSecretHint = true ∧ value.sections.head? ≠ some "destination" ∧
      envKey machine.upper value = item.key ∧ storeValue machine value = some item.value := by
  obtain ⟨-, hfirst⟩ := mem_recoverItems.1 h
  obtain ⟨value, hhead, hvalue⟩ := Option.bind_eq_some_iff.1 hfirst
  obtain ⟨hmem, hkey⟩ := List.mem_filter.1 (List.mem_of_mem_head? hhead)
  obtain ⟨hmem, hrec⟩ := List.mem_filter.1 hmem
  unfold ResolvedValue.isRecovered at hrec
  rw [Bool.and_eq_true, decide_eq_true_iff] at hrec
  exact ⟨value, hmem, hrec.1, hrec.2, of_decide_eq_true hkey, hvalue⟩

end

/-! ## What is dropped -/

/-- The first of a list has a value, if any of it has. -/
theorem head?_bind_eq_findSome? {α β : Type} (f : α → Option β) (l : List α) :
    l.head?.bind f = l.findSome? f ↔ ∀ a, l.head? = some a → (∃ b ∈ l, (f b).isSome = true) → (f a).isSome = true := by
  cases l with
  | nil => simp
  | cons a l =>
    cases ha : f a with
    | some v => simp [ha]
    | none => simp [ha, eq_comm (a := none)]

/-- For each environment key: if any of its entries has a value, then the first of them has. -/
def FirstHasValue (machine : Local) (values : List ResolvedValue) : Prop :=
  ∀ key first, (entriesOf machine values key).head? = some first →
    (∃ value ∈ entriesOf machine values key, (storeValue machine value).isSome = true) →
    (storeValue machine first).isSome = true

/-- **When secret recovery neither drops nor repeats a secret.** For every trace and every store: just if
the first entry of an environment key has a value whenever any entry of the key has. -/
theorem recovers_iff (machine : Local) (file : ScriptFile) (values : List ResolvedValue)
    (htrace : machine.trace (machine.attached (pipelineToAttach file.calls)) = .ok values) :
    ∃ items, recoverSecrets machine file = .ok items ∧
      (Recovers machine values items ↔ FirstHasValue machine values) := by
  refine ⟨recoverItems machine [] values, by unfold recoverSecrets; rw [htrace], ?_⟩
  have hmem : ∀ key secret, ⟨key, secret⟩ ∈ recoverItems machine [] values ↔
      (entriesOf machine values key).head?.bind (storeValue machine) = some secret := fun key secret => by
    rw [mem_recoverItems]
    exact and_iff_right (List.not_mem_nil)
  constructor
  · intro h key
    refine (head?_bind_eq_findSome? _ _).1 (Option.ext fun secret => ?_)
    exact (hmem key secret).symm.trans (h.complete key secret)
  · intro h
    refine ⟨recoverItems_nodup, submitted_length recoverItems_nodup, fun item hitem => recoverItems_stems hitem,
      fun key secret => ?_⟩
    rw [hmem, (head?_bind_eq_findSome? _ _).2 (h key)]

/-! ### Two spellings of one key -/

/-- A machine on which the last run resolved the values, of which the store has one. -/
def recoveringMachine (values : List ResolvedValue) (stored : String) : Local :=
  { bothRan with
    trace := fun _ => .ok values
    secrets := fun key => if key = stored then some "the-source-secret" else none
    upper := fun s => String.ofList (s.toList.map Char.toUpper) }

/-- The secret of a source, spelled in two ways. -/
def spelledTwice : List ResolvedValue := [⟨"api_key", ["sources", "Orders"], true⟩, ⟨"api_key", ["sources", "orders"], true⟩]

theorem spelledTwice_first : FirstHasValue (recoveringMachine spelledTwice "sources.Orders.api_key") spelledTwice := by
  intro key first hhead _
  -- both entries are of one key
  have hkeys : ∀ value ∈ spelledTwice,
      envKey (recoveringMachine spelledTwice "sources.Orders.api_key").upper value = "SOURCES__ORDERS__API_KEY" := by
    unfold spelledTwice
    simp only [List.forall_mem_cons]
    exact ⟨by decide +kernel, by decide +kernel, by simp⟩
  obtain ⟨hmem, hkey⟩ := List.mem_filter.1 (List.mem_of_mem_head? hhead)
  obtain rfl := (hkeys first (List.mem_of_mem_filter hmem)).symm.trans (of_decide_eq_true hkey)
  unfold spelledTwice at hhead
  rw [entriesOf_cons_pos (by decide) (by decide +kernel)] at hhead
  obtain rfl := Option.some.inj hhead
  decide +kernel

/-- The first spelling has a value, and is recovered. -/
theorem recovers_iff_first :
    recoverSecrets (recoveringMachine spelledTwice "sources.Orders.api_key") ordersScript =
        .ok [⟨"SOURCES__ORDERS__API_KEY", "the-source-secret"⟩] ∧
      Recovers (recoveringMachine spelledTwice "sources.Orders.api_key") spelledTwice
        [⟨"SOURCES__ORDERS__API_KEY", "the-source-secret"⟩] := by
  have hrun : recoverSecrets (recoveringMachine spelledTwice "sources.Orders.api_key") ordersScript =
      .ok [⟨"SOURCES__ORDERS__API_KEY", "the-source-secret"⟩] := congrArg Except.ok (by decide +kernel)
  obtain ⟨items, hitems, hiff⟩ := recovers_iff (recoveringMachine spelledTwice "sources.Orders.api_key") ordersScript
    spelledTwice rfl
  rw [hrun] at hitems
  cases hitems
  exact ⟨hrun, hiff.2 spelledTwice_first⟩

/-- **The second spelling has a value, and is dropped.** -/
theorem dropped_secret :
    recoverSecrets (recoveringMachine spelledTwice "sources.orders.api_key") ordersScript = .ok [] ∧
      ¬ Recovers (recoveringMachine spelledTwice "sources.orders.api_key") spelledTwice [] := by
  refine ⟨congrArg Except.ok (by decide +kernel), fun h => ?_⟩
  have hitem := (h.complete "SOURCES__ORDERS__API_KEY" "the-source-secret").2 (by decide +kernel)
  cases hitem

end Matterbeam
