import Clauses.Codec.Sealed
import Clauses.Proofs.Json.WireValues

/-!
# The order of maps makes no difference to what is read

However the entries of the maps in a value come, it is the same value that they make. So a text from
which a value is read gives the value in order, whatever the order in which it was written; and a
value that is decoded comes out the same, or is refused, whatever the order in which its maps are
gone through. Only which of several entries is complained about may differ.

* `Keyed.ofList_congr` — a keyed list depends on what stands behind each key, and on no order of
  keys
* `WireValue.ofJson_payload` — what a hook is given is read back as the value
* `WireValue.decode_arranged` — whether a value is decoded, and to what, is the same in each order
-/

namespace Clauses

/-! ## Keyed lists from entries in some order -/

namespace Keyed

variable {α β : Type}

/-- What is found in a keyed list that is ordered determines it. -/
theorem Ordered.ext {m m' : Keyed α} (h : m.Ordered) (h' : m'.Ordered)
    (hfind : ∀ k, m.find? k = m'.find? k) : m = m' := by
  induction m generalizing m' with
  | nil =>
    cases m' with
    | nil => rfl
    | cons e r => simpa [find?] using hfind e.1
  | cons e r ih =>
    obtain ⟨k, v⟩ := e
    cases m' with
    | nil => simpa [find?] using hfind k
    | cons e' r' =>
      obtain ⟨k', v'⟩ := e'
      have absent {k k' : String} {r : Keyed α} (hr : ∀ e ∈ r, k' < e.1) (hlt : ¬k' < k) :
          find? k r = none :=
        find?_eq_none fun hk => by
          obtain ⟨e, he, rfl⟩ := List.mem_map.mp hk
          exact hlt (hr e he)
      have hkey : k = k' := by
        by_contra hne
        rcases Decidable.em (k < k') with hlt | hge
        · have hnone := absent h'.1 fun hlt' => String.lt_irrefl k (String.lt_trans hlt hlt')
          have hk := hfind k
          simp [find?, hne, hnone] at hk
        · have hnone := absent h.1 (k := k') hge
          have hk := hfind k'
          simp [find?, Ne.symm hne, hnone] at hk
      subst hkey
      have hv : v = v' := by simpa [find?] using hfind k
      subst hv
      refine congrArg _ (ih h.2 h'.2 fun k₁ => ?_)
      by_cases hk : k₁ = k
      · subst hk
        rw [absent h.1 (String.lt_irrefl _), absent h'.1 (String.lt_irrefl _)]
      · simpa [find?, hk] using hfind k₁

/-- What is found under a key is the last that was put there. -/
theorem find?_extend (k : String) (entries : List (String × α)) (m : Keyed α) :
    (m.extend entries).find? k
      = ((entries.filter (·.1 == k)).getLast?.map Prod.snd).or (m.find? k) := by
  induction entries generalizing m with
  | nil => rfl
  | cons e r ih =>
    change ((m.insert e.1 e.2).extend r).find? k = _
    rw [ih, find?_insert, List.filter_cons]
    by_cases hk : e.1 = k
    · subst hk
      rw [if_pos (beq_self_eq_true _), if_pos (beq_self_eq_true _), List.getLast?_cons]
      cases (r.filter (·.1 == e.1)).getLast? <;> rfl
    · rw [if_neg (by simpa using Ne.symm hk), if_neg (by simpa using hk)]

/-- Entries are put together alike if the same stands behind each key. -/
theorem ofList_congr {entries entries' : List (String × α)}
    (h : ∀ k, entries.filter (·.1 == k) = entries'.filter (·.1 == k)) :
    ofList entries = ofList entries' := by
  refine (ofList_ordered _).ext (ofList_ordered _) fun k => ?_
  rw [ofList, ofList, find?_extend, find?_extend, h]

theorem mapM_some_of_mem {f : α → Option β} {as : List α} : ∀ {bs : List β}, as.mapM f = some bs →
    ∀ {a : α}, a ∈ as → ∃ b, f a = some b := by
  induction as with
  | nil => exact fun _ _ ha => absurd ha List.not_mem_nil
  | cons a' as ih =>
    intro bs h a ha
    rw [List.mapM_cons] at h
    obtain ⟨b, hb, h⟩ := Option.bind_eq_some_iff.mp h
    obtain ⟨bs', hbs, -⟩ := Option.bind_eq_some_iff.mp h
    rcases List.mem_cons.mp ha with rfl | ha
    · exact ⟨b, hb⟩
    · exact ih hbs ha

theorem exists_mapM_some {f : α → Option β} {as : List α} (h : ∀ a ∈ as, ∃ b, f a = some b) :
    ∃ bs, as.mapM f = some bs := by
  induction as with
  | nil => exact ⟨[], rfl⟩
  | cons a as ih =>
    rw [List.forall_mem_cons] at h
    obtain ⟨b, hb⟩ := h.1
    obtain ⟨bs, hbs⟩ := ih h.2
    exact ⟨b :: bs, by rw [List.mapM_cons, hb, hbs]; rfl⟩

/-- What is done to all entries, and leaves their keys, is done to those of each key. -/
theorem mapM_filter {f : String × α → Option (String × β)} (hf : ∀ e e', f e = some e' → e'.1 = e.1)
    (k : String) {entries : List (String × α)} : ∀ {entries' : List (String × β)},
      entries.mapM f = some entries' →
      (entries.filter (·.1 == k)).mapM f = some (entries'.filter (·.1 == k)) := by
  induction entries with
  | nil =>
    intro entries' h
    cases h
    rfl
  | cons e r ih =>
    intro entries' h
    rw [List.mapM_cons] at h
    obtain ⟨e', he, h⟩ := Option.bind_eq_some_iff.mp h
    obtain ⟨r', hr, ⟨⟩⟩ := Option.bind_eq_some_iff.mp h
    rw [List.filter_cons, List.filter_cons, hf e e' he]
    split
    · rw [List.mapM_cons, he, ih hr]
      rfl
    · exact ih hr

/--
All entries are taken or some is not, and what they make is the same, in whichever order they come.
-/
theorem mapM_ofList_congr {f : String × α → Option (String × β)}
    (hf : ∀ e e', f e = some e' → e'.1 = e.1) {entries entries' : List (String × α)}
    (h : ∀ k, entries.filter (·.1 == k) = entries'.filter (·.1 == k)) :
    (entries.mapM f).map ofList = (entries'.mapM f).map ofList := by
  have some_of_some {l l' : List (String × α)}
      (h : ∀ k, l.filter (·.1 == k) = l'.filter (·.1 == k)) {r : List (String × β)}
      (hl : l.mapM f = some r) : ∃ r', l'.mapM f = some r' := by
    have hmem (e : String × α) (he : e ∈ l') : e ∈ l := by
      have hk : e ∈ l'.filter (·.1 == e.1) := List.mem_filter.mpr ⟨he, beq_self_eq_true _⟩
      exact (List.mem_filter.mp ((h e.1) ▸ hk)).1
    have hall : ∀ e ∈ l', ∃ e', f e = some e' := fun e he => mapM_some_of_mem hl (hmem e he)
    exact exists_mapM_some hall
  cases hl : entries.mapM f with
  | none =>
    cases hl' : entries'.mapM f with
    | none => rfl
    | some r' =>
      obtain ⟨r, hr⟩ := some_of_some (fun k => (h k).symm) hl'
      rw [hl] at hr
      cases hr
  | some r =>
    obtain ⟨r', hr'⟩ := some_of_some h hl
    rw [hr']
    refine congrArg some (ofList_congr fun k => Option.some.inj ?_)
    rw [← mapM_filter hf k hl, ← mapM_filter hf k hr', h k]

end Keyed

/-! ## Maps in some order -/

namespace MapOrder

variable (order : MapOrder)

/-- The entries that come are those that there are. -/
theorem mem_arrange {path : List String} {entries : List (String × WireValue)}
    {e : String × WireValue} : e ∈ order.arrange path entries ↔ e ∈ entries := by
  have hk (l : List (String × WireValue)) : e ∈ l ↔ e ∈ l.filter (·.1 == e.1) := by simp
  rw [hk, order.stable, ← hk]

theorem arrange_ne_nil {path : List String} {entries : List (String × WireValue)} :
    order.arrange path entries ≠ [] ↔ entries ≠ [] := by
  simp only [ne_eq, List.eq_nil_iff_forall_not_mem, order.mem_arrange]

end MapOrder

namespace WireValue

variable {order : MapOrder} {path : List String}

/-- What is the same of each item, however it comes, is the same of all. -/
theorem map_arrangedItems {β : Type} {g : WireValue → β} {items : List WireValue}
    (h : ∀ w ∈ items, ∀ path, g (w.arrangedAt order path) = g w) :
    ∀ i, (arrangedItems order path i items).map g = items.map g := by
  induction items with
  | nil => exact fun _ => rfl
  | cons w rest ih =>
    intro i
    rw [List.forall_mem_cons] at h
    rw [arrangedItems, List.map_cons, List.map_cons, h.1, ih h.2]

theorem forall_arrangedItems {p : WireValue → Prop} {items : List WireValue}
    (h : ∀ w ∈ items, ∀ path, p (w.arrangedAt order path)) :
    ∀ i, ∀ w ∈ arrangedItems order path i items, p w := by
  induction items with
  | nil => exact fun _ _ hw => absurd hw List.not_mem_nil
  | cons w rest ih =>
    intro i
    rw [List.forall_mem_cons] at h
    rw [arrangedItems, List.forall_mem_cons]
    exact ⟨h.1 _, ih h.2 _⟩

theorem arrangedEntries_eq (entries : List (String × WireValue)) :
    arrangedEntries order path entries
      = entries.map fun e => (e.1, e.2.arrangedAt order (keyStep e.1 :: path)) := by
  induction entries with
  | nil => rfl
  | cons e rest ih => rw [arrangedEntries, ih, List.map_cons]

theorem forall_arrangedEntries {p : WireValue → Prop} {entries : List (String × WireValue)}
    (h : ∀ e ∈ entries, ∀ path, p (e.2.arrangedAt order path)) :
    ∀ e ∈ order.arrange path (arrangedEntries order path entries), p e.2 := by
  intro e' he'
  rw [order.mem_arrange, arrangedEntries_eq] at he'
  obtain ⟨e, he, rfl⟩ := List.mem_map.mp he'
  exact h e he _

theorem naturalKind_arrangedAt (w : WireValue) :
    (w.arrangedAt order path).naturalKind = w.naturalKind := by
  cases w <;> rfl

/-! ## What is written in some order -/

/-- However it comes, a value is the same once it has been put in order. -/
theorem sorted_arrangedAt (w : WireValue) :
    ∀ path, (w.arrangedAt order path).sorted = w.sorted := by
  induction w using walk with
  | text | number | binary | bool | null | textSet | numberSet | binarySet => exact fun _ => rfl
  | list items ih =>
    intro path
    rw [arrangedAt, WireValue.sorted, WireValue.sorted, sortedItems_eq, sortedItems_eq,
      map_arrangedItems ih]
  | map entries ih =>
    intro path
    rw [arrangedAt, WireValue.sorted, WireValue.sorted, sortedEntries_eq, sortedEntries_eq]
    refine congrArg _ (Keyed.ofList_congr fun k => ?_)
    have hentries : (arrangedEntries order path entries).map (fun e => (e.1, e.2.sorted))
        = entries.map fun e => (e.1, e.2.sorted) := by
      rw [arrangedEntries_eq, List.map_map]
      exact List.map_congr_left fun e he => Prod.ext rfl (ih e he _)
    rw [← hentries, List.filter_map, List.filter_map]
    exact congrArg _ (order.stable path _ k)

/-- Nothing becomes empty. -/
theorem Filled.arrangedAt {w : WireValue} (h : w.Filled) :
    ∀ path, (w.arrangedAt order path).Filled := by
  induction w using walk with
  | text | number | binary | bool | null | textSet | numberSet | binarySet => exact fun _ => h
  | list items ih =>
    intro path
    obtain ⟨hne, hitems⟩ := filled_list_iff.mp h
    refine filled_list_iff.mpr ⟨?_, forall_arrangedItems (fun w hw => ih w hw (hitems w hw)) 0⟩
    cases items with
    | nil => exact absurd rfl hne
    | cons w rest => exact List.cons_ne_nil _ _
  | map entries ih =>
    intro path
    obtain ⟨hne, hentries⟩ := filled_map_iff.mp h
    refine filled_map_iff.mpr ⟨order.arrange_ne_nil.mpr ?_, ?_⟩
    · rw [arrangedEntries_eq]
      exact fun h => hne (List.map_eq_nil_iff.mp h)
    · exact forall_arrangedEntries fun e he => ih e he (hentries e he)

/-- Nothing comes to stand in more brackets. -/
theorem nesting_arrangedAt {w : WireValue} : ∀ {depth : Nat} (path), w.toJson.nesting ≤ depth →
    (w.arrangedAt order path).toJson.nesting ≤ depth := by
  induction w using walk with
  | text | number | binary | bool | null | textSet | numberSet | binarySet => exact fun _ h => h
  | list items ih =>
    intro depth path h
    obtain ⟨_, rfl, hlist⟩ := Json.nesting_single_le_iff.mp h
    obtain ⟨_, rfl, hitems⟩ := Json.nesting_list_le_iff.mp hlist
    refine Json.nesting_single_le_iff.mpr ⟨_, rfl, Json.nesting_list_le_iff.mpr ⟨_, rfl, ?_⟩⟩
    rw [itemsToJson_eq, List.forall_mem_map] at hitems ⊢
    exact forall_arrangedItems (fun w hw path => ih w hw path (hitems w hw)) 0
  | map entries ih =>
    intro depth path h
    obtain ⟨_, rfl, hmap⟩ := Json.nesting_single_le_iff.mp h
    obtain ⟨_, rfl, hentries⟩ := Json.nesting_object_le_iff.mp hmap
    refine Json.nesting_single_le_iff.mpr ⟨_, rfl, Json.nesting_object_le_iff.mpr ⟨_, rfl, ?_⟩⟩
    rw [entriesToJson_eq, List.forall_mem_map] at hentries ⊢
    exact forall_arrangedEntries (p := fun w => w.toJson.nesting ≤ _)
      fun e he path => ih e he path (hentries e he)

/-- **What a hook is given is read back as the value**, whatever the order of its entries. -/
theorem ofJson_payload {w : WireValue} (h : Readable Json.maxDepth w) (order : MapOrder) :
    ofJson (w.payload order) = .ok w := by
  have hd : (w.arrangedAt order []).toJson.nesting ≤ Json.maxDepth :=
    nesting_arrangedAt [] h.nesting_le
  rw [payload, arranged, ofJson_toJson_sorted (h.filled.arrangedAt []) hd, sorted_arrangedAt,
    h.inOrder.sorted_eq]

/-! ## What is decoded in some order -/

theorem toOption_bind {ε α β : Type} (x : Except ε α) (f : α → Except ε β) :
    (x >>= f).toOption = x.toOption.bind fun a => (f a).toOption := by
  cases x <;> rfl

theorem toOption_map {ε α β : Type} (x : Except ε α) (f : α → β) :
    (x.map f).toOption = x.toOption.map f := by
  cases x <;> rfl

variable {dates : Option String}

theorem decode_list (items : List WireValue) (field : String) (format : Option String)
    (kind : ValueKind) : (WireValue.list items).decode dates field format kind
      = if kind = .list then (decodeItems dates field 0 items).map .list
        else .error (.typeMismatch field kind .list) := by
  cases kind <;> rfl

theorem decode_map (entries : List (String × WireValue)) (field : String) (format : Option String)
    (kind : ValueKind) : (WireValue.map entries).decode dates field format kind
      = if kind = .map then (decodeEntries dates field entries).map fun vs => .map (Keyed.ofList vs)
        else .error (.typeMismatch field kind .map) := by
  cases kind <;> rfl

/-- What an entry of a map is decoded to, if it can be. -/
def entryValue? (dates : Option String) (field : String) (e : String × WireValue) :
    Option (String × Value) :=
  (e.2.decode dates (field ++ keyStep e.1) none e.2.naturalKind).toOption.map (e.1, ·)

theorem decodeEntries_toOption (entries : List (String × WireValue)) {field : String} :
    (decodeEntries dates field entries).toOption = entries.mapM (entryValue? dates field) := by
  induction entries with
  | nil => rfl
  | cons e rest ih =>
    rw [decodeEntries, List.mapM_cons, toOption_bind, entryValue?]
    simp only [toOption_bind, ih]
    cases (e.2.decode dates (field ++ keyStep e.1) none e.2.naturalKind).toOption <;> rfl

theorem key_of_entryValue? {field : String} {e : String × WireValue} {e' : String × Value}
    (h : entryValue? dates field e = some e') : e'.1 = e.1 := by
  obtain ⟨v, -, rfl⟩ := Option.map_eq_some_iff.mp h
  rfl

theorem mapM_map_of_forall {α β : Type} {f : α → Option β} {g : α → α} {as : List α}
    (h : ∀ a ∈ as, f (g a) = f a) : (as.map g).mapM f = as.mapM f := by
  induction as with
  | nil => rfl
  | cons a as ih =>
    rw [List.forall_mem_cons] at h
    rw [List.map_cons, List.mapM_cons, List.mapM_cons, h.1, ih h.2]

theorem decode_arrangedAt (w : WireValue) : ∀ (path) (field : String) (format : Option String)
    (kind : ValueKind), ((w.arrangedAt order path).decode dates field format kind).toOption
      = (w.decode dates field format kind).toOption := by
  induction w using walk with
  | text | number | binary | bool | null | textSet | numberSet | binarySet =>
    exact fun _ _ _ _ => rfl
  | list items ih =>
    intro path field format kind
    have hitems (l : List WireValue) (hl : ∀ w ∈ l, w ∈ items) : ∀ i j,
        (decodeItems dates field i (arrangedItems order path j l)).toOption
          = (decodeItems dates field i l).toOption := by
      induction l with
      | nil => exact fun _ _ => rfl
      | cons w rest ih' =>
        intro i j
        rw [List.forall_mem_cons] at hl
        rw [arrangedItems, decodeItems, decodeItems, toOption_bind, toOption_bind,
          naturalKind_arrangedAt, ih w hl.1]
        simp only [toOption_bind, ih' hl.2]
    rw [arrangedAt, decode_list, decode_list]
    split
    · rw [toOption_map, toOption_map, hitems items fun _ h => h]
    · rfl
  | map entries ih =>
    intro path field format kind
    rw [arrangedAt, decode_map, decode_map]
    split
    · have hentries : (arrangedEntries order path entries).mapM (entryValue? dates field)
          = entries.mapM (entryValue? dates field) := by
        rw [arrangedEntries_eq]
        refine mapM_map_of_forall fun e he => ?_
        rw [entryValue?, entryValue?, naturalKind_arrangedAt, ih e he]
      have hcongr := Keyed.mapM_ofList_congr (f := entryValue? dates field)
        (fun _ _ => key_of_entryValue?) (order.stable path (arrangedEntries order path entries))
      rw [toOption_map, toOption_map, decodeEntries_toOption, decodeEntries_toOption, ← hentries]
      exact (Option.map_map ..).symm.trans ((congrArg (Option.map Value.map) hcongr).trans
        (Option.map_map ..))
    · rfl

/-- **Whether a value is decoded, and to what, is the same in whichever order its entries come.** -/
theorem decode_arranged (order : MapOrder) (w : WireValue) (field : String) (format : Option String)
    (kind : ValueKind) : ((w.arranged order).decode dates field format kind).toOption
      = (w.decode dates field format kind).toOption :=
  w.decode_arrangedAt [] field format kind

theorem decode_arranged_ok_iff (order : MapOrder) {w : WireValue} {field : String}
    {format : Option String} {kind : ValueKind} {v : Value} :
    (w.arranged order).decode dates field format kind = .ok v
      ↔ w.decode dates field format kind = .ok v := by
  have h {x : Except ClauseError Value} : x = .ok v ↔ x.toOption = some v := by
    cases x <;> simp [Except.toOption]
  rw [h, h, decode_arranged]

end WireValue

end Clauses
