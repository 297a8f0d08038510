import TokenDog.Discovery.Selectors
import Mathlib.Data.List.DropRight
import Mathlib.Data.List.TakeDrop

/-!
# The text of a selector

A selector is typed as `key=value` pairs between commas, read into a map by `parse_selector`, and
written back for the API server by `list_label_selector`. What is written reads back as the map it
was written from.
-/

namespace TokenDog

/-- `char::is_whitespace`: the characters with the property `White_Space`. -/
def isWhitespace (c : Char) : Bool :=
  let n := c.toNat
  (9 ≤ n && n ≤ 13) || n == 32 || n == 0x85 || n == 0xA0 || n == 0x1680 ||
    (0x2000 ≤ n && n ≤ 0x200A) || n == 0x2028 || n == 0x2029 || n == 0x202F || n == 0x205F ||
    n == 0x3000

/-- `str::trim`. -/
def trim (s : String) : String :=
  String.ofList ((s.toList.dropWhile isWhitespace).rdropWhile isWhitespace)

/-- `split_once('=')`. -/
def splitOnce (item : String) : Option (String × String) :=
  match item.toList.span (· != '=') with
  | (_, []) => none
  | (key, _ :: value) => some (String.ofList key, String.ofList value)

/-- `HashMap::insert`. The order of the entries stands for that of an iteration. -/
def insertEntry (map : List (String × String)) (entry : String × String) : List (String × String) :=
  map.filter (·.1 != entry.1) ++ [entry]

/-- The entry of an item, unless it is invalid. -/
def selectorEntry (item : String) : Option (String × String) :=
  (splitOnce item).map fun (k, v) => (trim k, trim v)

/-- Parse a list of "key=value" strings. Invalid entries are skipped. -/
def parseSelector (items : List String) : List (String × String) :=
  items.foldl (fun map item =>
    match selectorEntry item with
    | some entry => insertEntry map entry
    | none => map) []

/-- `value_delimiter = ','`. -/
def delimitedValues (text : String) : List String := (text.toList.splitOn ',').map String.ofList

theorem trimmed_idempotent (p : Char → Bool) (l : List Char) :
    (((l.dropWhile p).rdropWhile p).dropWhile p).rdropWhile p = (l.dropWhile p).rdropWhile p := by
  have hfront : ((l.dropWhile p).rdropWhile p).dropWhile p = (l.dropWhile p).rdropWhile p := by
    rw [List.dropWhile_eq_self_iff]
    intro hpos
    have hinitial := List.rdropWhile_prefix p (l.dropWhile p)
    rw [hinitial.getElem hpos]
    exact List.dropWhile_eq_self_iff.mp (List.dropWhile_idempotent p l) _
  rw [hfront, List.rdropWhile_idempotent]

theorem trim_trim (s : String) : trim (trim s) = trim s := by
  simp only [trim, String.toList_ofList, trimmed_idempotent]

theorem mem_of_mem_trim {s : String} {c : Char} (hmem : c ∈ (trim s).toList) : c ∈ s.toList := by
  rw [trim, String.toList_ofList] at hmem
  exact (List.dropWhile_sublist _).subset ((List.rdropWhile_prefix _ _).subset hmem)

theorem splitOnce_append {key : String} (value : String) (hkey : '=' ∉ key.toList) :
    splitOnce (key ++ "=" ++ value) = some (key, value) := by
  have hall : ∀ c ∈ key.toList, (c != '=') = true := by
    intro c hmem
    rw [bne_iff_ne]
    rintro rfl
    exact hkey hmem
  have hlist : (key ++ "=" ++ value).toList = key.toList ++ '=' :: value.toList := by
    simp
  rw [splitOnce, hlist, List.span_eq_takeWhile_dropWhile, List.takeWhile_append_of_pos hall,
    List.dropWhile_append_of_pos hall]
  simp

theorem of_splitOnce {item key value : String} (h : splitOnce item = some (key, value)) :
    item = key ++ "=" ++ value ∧ '=' ∉ key.toList := by
  rw [splitOnce, List.span_eq_takeWhile_dropWhile] at h
  split at h
  · cases h
  · rename_i before separator after hspan
    obtain ⟨hbefore, hafter⟩ := Prod.mk.inj hspan
    cases h
    have hseparator : separator = '=' := by
      have := List.head?_dropWhile_not (· != '=') item.toList
      rw [hafter] at this
      simpa using this
    have hequals : '=' ∉ before := by
      rw [← hbefore]
      intro hmem
      simpa using List.mem_takeWhile_imp hmem
    refine ⟨?_, by rwa [String.toList_ofList]⟩
    rw [← String.toList_inj, ← List.takeWhile_append_dropWhile (p := (· != '=')) (l := item.toList),
      hbefore, hafter, hseparator]
    simp

/-- The texts of a key and a value that survive being written and read. -/
structure Legible (entry : String × String) : Prop where
  key_comma : ',' ∉ entry.1.toList
  key_equals : '=' ∉ entry.1.toList
  value_comma : ',' ∉ entry.2.toList
  key_trimmed : trim entry.1 = entry.1
  value_trimmed : trim entry.2 = entry.2

theorem Legible.selectorEntry_eq {entry : String × String} (h : Legible entry) :
    selectorEntry (entry.1 ++ "=" ++ entry.2) = some entry := by
  obtain ⟨key, value⟩ := entry
  rw [selectorEntry, splitOnce_append _ h.key_equals, Option.map_some]
  exact congrArg some (Prod.ext h.key_trimmed h.value_trimmed)

theorem Legible.of_selectorEntry {item : String} (hcomma : ',' ∉ item.toList)
    {entry : String × String} (h : selectorEntry item = some entry) : Legible entry := by
  obtain ⟨⟨key, value⟩, hsplit, rfl⟩ := Option.map_eq_some_iff.mp h
  obtain ⟨rfl, hequals⟩ := of_splitOnce hsplit
  simp only [String.toList_append, List.mem_append, not_or] at hcomma
  exact
    { key_comma := fun hmem => hcomma.1.1 (mem_of_mem_trim hmem)
      key_equals := fun hmem => hequals (mem_of_mem_trim hmem)
      value_comma := fun hmem => hcomma.2 (mem_of_mem_trim hmem)
      key_trimmed := trim_trim key
      value_trimmed := trim_trim value }

theorem parseSelector_eq (items : List String) :
    parseSelector items = (items.filterMap selectorEntry).foldl insertEntry [] := by
  rw [parseSelector, List.foldl_filterMap]
  congr 1
  funext map item
  cases selectorEntry item <;> rfl

theorem keys_insertEntry (map : List (String × String)) (entry : String × String) :
    (insertEntry map entry).map Prod.fst = (map.map Prod.fst).filter (· != entry.1) ++ [entry.1] := by
  rw [insertEntry, List.map_append, List.map_singleton, List.filter_map]
  rfl

theorem keys_nodup_insertEntry {map : List (String × String)} (entry : String × String)
    (h : (map.map Prod.fst).Nodup) : ((insertEntry map entry).map Prod.fst).Nodup := by
  rw [keys_insertEntry, List.nodup_append]
  refine ⟨h.filter _, List.nodup_singleton _, fun key hkey other hother => ?_⟩
  rw [List.mem_singleton.mp hother]
  exact bne_iff_ne.mp (List.mem_filter.mp hkey).2

theorem mem_insertEntry {map : List (String × String)} {entry other : String × String}
    (hmem : other ∈ insertEntry map entry) : other ∈ map ∨ other = entry := by
  rw [insertEntry, List.mem_append, List.mem_singleton] at hmem
  exact hmem.imp (fun h => List.mem_of_mem_filter h) id

theorem lookup_filter_ne (map : List (String × String)) (removed key : String) :
    (map.filter (·.1 != removed)).lookup key = if key = removed then none else map.lookup key := by
  induction map with
  | nil => simp
  | cons entry rest ih =>
      by_cases hentry : entry.1 = removed
      · rw [List.filter_cons_of_neg (by simpa using hentry), ih]
        by_cases hkey : key = removed
        · rw [if_pos hkey, if_pos hkey]
        · rw [if_neg hkey, if_neg hkey, List.lookup_cons, beq_false_of_ne (hentry ▸ hkey)]
      · rw [List.filter_cons_of_pos (by simpa using hentry), List.lookup_cons, List.lookup_cons, ih]
        by_cases hkey : key = removed
        · rw [if_pos hkey, if_pos hkey, beq_false_of_ne (hkey ▸ Ne.symm hentry)]
        · rw [if_neg hkey, if_neg hkey]

theorem lookup_insertEntry (map : List (String × String)) (entry : String × String) (key : String) :
    (insertEntry map entry).lookup key = if key = entry.1 then some entry.2 else map.lookup key := by
  rw [insertEntry, List.lookup_append, lookup_filter_ne, List.lookup_singleton]
  by_cases hkey : key = entry.1 <;> simp [hkey]

/-- A map is its entries, added one by one, when no key comes twice. -/
theorem foldl_insertEntry {entries map : List (String × String)}
    (h : ((map ++ entries).map Prod.fst).Nodup) : entries.foldl insertEntry map = map ++ entries := by
  induction entries generalizing map with
  | nil => rw [List.foldl_nil, List.append_nil]
  | cons entry rest ih =>
      have hnew : map.filter (·.1 != entry.1) = map := by
        refine List.filter_eq_self.mpr fun other hmem => ?_
        rw [List.map_append, List.nodup_append] at h
        exact bne_iff_ne.mpr (h.2.2 _ (List.mem_map_of_mem hmem) _ List.mem_cons_self)
      rw [List.foldl_cons, insertEntry, hnew, ih]
      · rw [List.append_assoc, List.singleton_append]
      · rwa [List.append_assoc, List.singleton_append]

theorem keys_nodup_parseSelector (items : List String) :
    ((parseSelector items).map Prod.fst).Nodup := by
  rw [parseSelector_eq]
  refine List.foldlRecOn (motive := fun map => (map.map Prod.fst).Nodup) _ insertEntry ?_
    fun _ hmap entry _ => keys_nodup_insertEntry entry hmap
  exact List.nodup_nil

theorem mem_parseSelector {items : List String} {entry : String × String}
    (hmem : entry ∈ parseSelector items) : ∃ item ∈ items, selectorEntry item = some entry := by
  rw [parseSelector_eq] at hmem
  rw [← List.mem_filterMap]
  refine List.foldlRecOn (motive := fun map => entry ∈ map → entry ∈ items.filterMap selectorEntry)
    _ insertEntry (fun h => (List.not_mem_nil h).elim) (fun map ih added hadded h => ?_) hmem
  rcases mem_insertEntry h with h | rfl
  · exact ih h
  · exact hadded

/-- The value that counts for a key: that of the last item `key=value`. -/
def lastTyped (items : List String) (key : String) : Option String :=
  (items.filterMap selectorEntry).reverse.lookup key

theorem lookup_parseSelector (items : List String) (key : String) :
    (parseSelector items).lookup key = lastTyped items key := by
  rw [parseSelector_eq, lastTyped]
  generalize items.filterMap selectorEntry = entries
  induction entries using List.reverseRecOn with
  | nil => rfl
  | append_singleton entries entry ih =>
      rw [List.foldl_append, List.foldl_cons, List.foldl_nil, lookup_insertEntry, ih,
        List.reverse_append, List.reverse_singleton, List.singleton_append, List.lookup_cons]
      by_cases hkey : key = entry.1
      · rw [if_pos hkey, hkey, beq_self_eq_true]
      · rw [if_neg hkey, beq_false_of_ne hkey]

theorem mem_of_lookup {map : List (String × String)} {key value : String}
    (h : map.lookup key = some value) : (key, value) ∈ map := by
  obtain ⟨before, after, rfl, -⟩ := List.lookup_eq_some_iff.mp h
  exact List.mem_append_right _ List.mem_cons_self

theorem lookup_of_mem {map : List (String × String)} (hkeys : (map.map Prod.fst).Nodup)
    {entry : String × String} (hmem : entry ∈ map) : map.lookup entry.1 = some entry.2 := by
  obtain ⟨before, after, rfl⟩ := List.append_of_mem hmem
  rw [List.map_append, List.map_cons, List.nodup_middle, List.nodup_cons] at hkeys
  refine List.lookup_eq_some_iff.mpr ⟨before, after, rfl, fun other hother => ?_⟩
  rw [bne_iff_ne]
  intro hkey
  exact hkeys.1 (List.mem_append_left _ (List.mem_map.mpr ⟨other, hother, hkey.symm⟩))

theorem lookup_parseSelector_eq_some_iff {items : List String} {key value : String} :
    lastTyped items key = some value ↔ (key, value) ∈ parseSelector items := by
  rw [← lookup_parseSelector]
  exact ⟨mem_of_lookup, lookup_of_mem (keys_nodup_parseSelector items)⟩

/-- Something was typed for the role, and the pod has the value that counts for every key. -/
def Pod.HasTyped (pod : Pod) (items : List String) : Prop :=
  (∃ key value, lastTyped items key = some value) ∧
    ∀ key value, lastTyped items key = some value → pod.label key = some value

theorem matchesSelector_parseSelector_iff {pod : Pod} {items : List String} :
    PodInfo.matchesSelector pod (parseSelector items) = true ↔ pod.HasTyped items := by
  rw [ServiceDiscoveryConfig.matchesSelector_iff, Pod.HasTyped]
  simp only [lookup_parseSelector_eq_some_iff]
  refine and_congr ?_ ⟨fun h key value => h (key, value), fun h entry => h entry.1 entry.2⟩
  constructor
  · intro hne
    obtain ⟨entry, hmem⟩ := List.exists_mem_of_ne_nil _ hne
    exact ⟨entry.1, entry.2, hmem⟩
  · rintro ⟨key, value, hmem⟩
    exact List.ne_nil_of_mem hmem

/-- The entries that two maps have in common, by key. -/
theorem lookup_filter_common {map : List (String × String)} (hkeys : (map.map Prod.fst).Nodup)
    (other : List (String × String)) (key : String) :
    (map.filter fun (k, v) => other.lookup k == some v).lookup key =
      if other.lookup key = map.lookup key then map.lookup key else none := by
  have hcommon : ((map.filter fun (k, v) => other.lookup k == some v).map Prod.fst).Nodup :=
    hkeys.sublist (List.filter_sublist.map Prod.fst)
  refine Option.ext fun value => ⟨fun h => ?_, fun h => ?_⟩
  · obtain ⟨hmem, hother⟩ := List.mem_filter.mp (mem_of_lookup h)
    have hmap := lookup_of_mem hkeys hmem
    rw [beq_iff_eq] at hother
    rw [if_pos (hother.trans hmap.symm), hmap]
  · split at h
    · rename_i hother
      exact lookup_of_mem hcommon
        (List.mem_filter.mpr ⟨mem_of_lookup h, beq_iff_eq.mpr (hother.trans h)⟩)
    · cases h

theorem Legible.comma_not_mem {entry : String × String} (h : Legible entry) :
    ',' ∉ (entry.1 ++ "=" ++ entry.2).toList := by
  simp only [String.toList_append, List.mem_append, not_or]
  exact ⟨⟨h.key_comma, by decide⟩, h.value_comma⟩

theorem delimitedValues_intercalate {items : List String} (hne : items ≠ [])
    (hcomma : ∀ item ∈ items, ',' ∉ item.toList) :
    delimitedValues (",".intercalate items) = items := by
  have hsplit : ([','].intercalate (items.map String.toList)).splitOn ',' =
      items.map String.toList := by
    refine List.splitOn_intercalate ',' ?_ (by simpa using hne)
    intro chars hmem
    obtain ⟨item, hitem, rfl⟩ := List.mem_map.mp hmem
    exact hcomma item hitem
  rw [delimitedValues, String.toList_intercalate]
  change (([','].intercalate (items.map String.toList)).splitOn ',').map String.ofList = items
  rw [hsplit, List.map_map]
  refine (List.map_congr_left fun item _ => ?_).trans (List.map_id items)
  exact String.ofList_toList

/-- A map whose entries can be read back is read back from its text. -/
theorem parseSelector_text {entries : List (String × String)}
    (hkeys : (entries.map Prod.fst).Nodup) (hlegible : ∀ entry ∈ entries, Legible entry) :
    parseSelector (delimitedValues (",".intercalate (entries.map fun (k, v) => k ++ "=" ++ v))) =
      entries := by
  let text : String × String → String := fun entry => entry.1 ++ "=" ++ entry.2
  change parseSelector (delimitedValues (",".intercalate (entries.map text))) = entries
  have hitems : parseSelector (delimitedValues (",".intercalate (entries.map text))) =
      parseSelector (entries.map text) := by
    cases entries with
    | nil => rfl  -- the empty text is one invalid item
    | cons first rest =>
        rw [delimitedValues_intercalate (by simp)]
        intro item hitem
        obtain ⟨entry, hentry, rfl⟩ := List.mem_map.mp hitem
        exact (hlegible entry hentry).comma_not_mem
  have hread : (entries.map text).filterMap selectorEntry = entries := by
    rw [List.filterMap_map]
    refine (List.filterMap_congr fun entry hentry => ?_).trans List.filterMap_some
    exact (hlegible entry hentry).selectorEntry_eq
  rw [hitems, parseSelector_eq, hread, foldl_insertEntry (by simpa using hkeys), List.nil_append]

/-- The maps that `parse_selector` makes of items without commas can be read back. -/
theorem legible_parseSelector {items : List String} (hcomma : ∀ item ∈ items, ',' ∉ item.toList) :
    ∀ entry ∈ parseSelector items, Legible entry := by
  intro entry hmem
  obtain ⟨item, hitem, hentry⟩ := mem_parseSelector hmem
  exact .of_selectorEntry (hcomma item hitem) hentry

theorem not_mem_of_mem_splitOn {separator : Char} {chars part : List Char}
    (hmem : part ∈ chars.splitOn separator) : separator ∉ part := by
  induction chars generalizing part with
  | nil => simp_all
  | cons c rest ih =>
      rw [List.splitOn_cons_eq_if_modifyHead] at hmem
      split at hmem
      · rcases List.mem_cons.mp hmem with rfl | hmem
        · exact List.not_mem_nil
        · exact ih hmem
      · rename_i hc
        cases hparts : rest.splitOn separator with
        | nil => exact absurd hparts (List.splitOn_ne_nil _ _)
        | cons first others =>
            rw [hparts, List.modifyHead_cons] at hmem
            rcases List.mem_cons.mp hmem with rfl | hother
            · have hfirst := ih (hparts ▸ List.mem_cons_self)
              exact List.not_mem_cons_of_ne_of_not_mem (fun h => hc (beq_iff_eq.mpr h.symm)) hfirst
            · exact ih (hparts ▸ List.mem_cons_of_mem _ hother)

theorem comma_not_mem_delimitedValues {text item : String} (hmem : item ∈ delimitedValues text) :
    ',' ∉ item.toList := by
  obtain ⟨part, hpart, rfl⟩ := List.mem_map.mp hmem
  rw [String.toList_ofList]
  exact not_mem_of_mem_splitOn hpart

/-- Whatever was typed, the selector of the list call reads back as the requirements it was made
from. -/
theorem parseSelector_listLabelSelector {config : ServiceDiscoveryConfig}
    {items prefillItems : List String} (hitems : ∀ item ∈ items, ',' ∉ item.toList)
    (hprefillItems : ∀ item ∈ prefillItems, ',' ∉ item.toList)
    (hselector : config.selector = parseSelector items)
    (hprefill : config.prefillSelector = parseSelector prefillItems) :
    parseSelector (delimitedValues config.listLabelSelector) = config.listRequirements := by
  rw [ServiceDiscoveryConfig.listLabelSelector]
  apply parseSelector_text
  · rw [ServiceDiscoveryConfig.listRequirements]
    split
    · rw [hprefill]
      exact (keys_nodup_parseSelector _).sublist (List.filter_sublist.map Prod.fst)
    · rw [hselector]
      exact keys_nodup_parseSelector _
  · intro entry hmem
    rw [ServiceDiscoveryConfig.listRequirements] at hmem
    split at hmem
    · rw [hprefill] at hmem
      exact legible_parseSelector hprefillItems entry (List.mem_of_mem_filter hmem)
    · rw [hselector] at hmem
      exact legible_parseSelector hitems entry hmem

end TokenDog
