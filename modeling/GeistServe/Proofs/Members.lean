import GeistServe.Proofs.Growth
import GeistServe.Proofs.Lookup

/-!
# Keys without a value

`json_get` answers with the token behind the key. The tokenizer accepts an object
whose key has no value, and then that token is the next key. What saves every other
case is that the first child of a token stands right behind it (`Linked`): a key
with a value is followed by that value.
-/

namespace GeistServe.Proofs

open GeistServe.Lib GeistServe.Geistd GeistServe.Json

/-! ## First children -/

def parents (ts : List Tok) : List (Option Nat) := ts.map (·.parent)

theorem parents_get {ts : List Tok} {k : Nat} {t : Tok} (h : ts[k]? = some t) :
    (parents ts)[k]? = some t.parent := by
  rw [parents, List.getElem?_map, h, Option.map_some]

theorem get_parents {ts : List Tok} {k : Nat} {x : Option Nat} (h : (parents ts)[k]? = some x) :
    ∃ t, ts[k]? = some t ∧ t.parent = x := by
  rw [parents, List.getElem?_map] at h
  cases ht : ts[k]? with
  | none =>
      rw [ht] at h
      cases h
  | some t =>
      rw [ht] at h
      exact ⟨t, rfl, Option.some.inj h⟩

theorem parents_modify {f : Tok → Tok} (hf : ∀ t, (f t).parent = t.parent) (ts : List Tok)
    (k : Nat) : parents (ts.modify k f) = parents ts := by
  have hmap : (ts.modify k f).map (·.parent) = (ts.map (·.parent)).modify k id :=
    map_modify (fun t : Tok => t.parent) hf k ts
  rwa [List.modify_id] at hmap

theorem parents_addSize (ts : List Tok) (i : Option Nat) : parents (addSize ts i) = parents ts := by
  cases i with
  | none => rfl
  | some i => exact parents_modify (f := fun t => { t with size := t.size + 1 }) (fun _ => rfl) ts i

/-- Each parent is in front of its children, the first of them right behind it; and
the token above has no child yet only if it is the last. -/
structure Linked (ps : List (Option Nat)) (sup : Option Nat) : Prop where
  parent : ∀ k i, ps[k]? = some (some i) → i < k ∧ ps[i + 1]? = some (some i)
  sup : ∀ i, sup = some i → i + 1 = ps.length ∨ ps[i + 1]? = some (some i)

section

variable {ps : List (Option Nat)} {sup : Option Nat}

theorem Linked.above (h : Linked ps sup) {k : Nat} {x : Option Nat} (hk : ps[k]? = some x) :
    Linked ps x := by
  refine ⟨h.parent, ?_⟩
  rintro i rfl
  exact .inr (h.parent k i hk).2

theorem Linked.last (h : Linked ps sup) :
    Linked ps (if ps.length = 0 then none else some (ps.length - 1)) := by
  refine ⟨h.parent, ?_⟩
  intro i hi
  split at hi
  · cases hi
  · injection hi with hi
    exact .inl (by omega)

/-- A token more under the token above. -/
theorem Linked.push (h : Linked ps sup) : Linked (ps ++ [sup]) sup := by
  have hkeep : ∀ {k : Nat} {x : Option Nat}, ps[k]? = some x → (ps ++ [sup])[k]? = some x :=
    fun hk => (List.getElem?_append_left (List.getElem?_eq_some_iff.mp hk).1).trans hk
  have hnew : (ps ++ [sup])[ps.length]? = some sup := List.getElem?_concat_length
  -- the first child of the token above is there by now
  have hfirst : ∀ i, sup = some i → i < ps.length ∧ (ps ++ [sup])[i + 1]? = some (some i) := by
    intro i hi
    rcases h.sup i hi with hlast | hi'
    · exact ⟨by omega, by rw [hlast, hnew, hi]⟩
    · have hlt := (List.getElem?_eq_some_iff.mp hi').1
      exact ⟨by omega, hkeep hi'⟩
  constructor
  · intro k i hk
    rcases Nat.lt_or_ge k ps.length with hlt | hge
    · rw [List.getElem?_append_left hlt] at hk
      obtain ⟨hik, hi⟩ := h.parent k i hk
      exact ⟨hik, hkeep hi⟩
    · have hlen := (List.getElem?_eq_some_iff.mp hk).1
      rw [List.length_append, List.length_singleton] at hlen
      obtain rfl : k = ps.length := by omega
      rw [hnew] at hk
      exact hfirst i (Option.some.inj hk)
  · intro i hi
    exact .inr (hfirst i hi).2

end

theorem linked_preserved (cap : Nat) :
    Preserved cap fun _ p => Linked (parents p.toks) p.toksuper where
  mono _ h := h
  opens _ h h' := by
    obtain ⟨_, rfl⟩ := openBracket_ok h'
    have hpush := h.push.last
    rw [List.length_append, List.length_singleton, if_neg (Nat.succ_ne_zero _),
      Nat.add_sub_cancel, parents, List.length_map] at hpush
    simp only
    rw [parents, List.map_append, ← parents, parents_addSize]
    exact hpush
  closes _ h h' := by
    rcases closeBracket_ok h' with rfl | ⟨i, t, _, ht, _, _, rfl⟩
    · exact h
    · simp only
      rw [parents_modify]
      · exact h.above (parents_get ht)
      · exact fun t => rfl
  adds _ _ h h' := by
    rw [addToken_ok h']
    simp only
    rw [parents_addSize, parents, List.map_append]
    exact h.push
  colon h := by
    have hlast := h.last
    rw [parents, List.length_map] at hlast
    exact hlast
  comma h ht _ := by
    obtain ⟨i, _, hi⟩ := Option.bind_eq_some_iff.mp ht
    exact h.above (parents_get hi)

/-- The first child of a token stands right behind it, in every text that is
accepted. -/
theorem jsonParse_linked {src : Bytes} {j : Doc} (h : jsonParse src = some j) {k i : Nat}
    {t : Tok} (ht : j.tok[k]? = some t) (hi : t.parent = some i) :
    i < k ∧ ∃ u, j.tok[i + 1]? = some u ∧ u.parent = some i := by
  obtain ⟨_, p, _, _, hloop, htok, _⟩ := jsonParse_ok h
  have hempty : Linked (parents ({} : Parser).toks) none :=
    ⟨fun k i hk => (by cases hk), fun i hi => (by cases hi)⟩
  obtain ⟨_, hlinked⟩ := (linked_preserved JSON_TOK_CAP).loop hempty hloop
  rw [htok] at ht ⊢
  have hk := parents_get ht
  rw [hi] at hk
  obtain ⟨hlt, hfirst⟩ := hlinked.parent k i hk
  exact ⟨hlt, get_parents hfirst⟩

/-! ## Lookup -/

/-- The first string right under `obj` that reads `key`, from token `i` on. -/
def findKey (j : Doc) (obj : Nat) (key : Bytes) : Nat → List Tok → Option Nat
  | _, [] => none
  | i, t :: rest =>
      if t.parent = some obj ∧ t.type = .string ∧ j.text t = key then some i
      else findKey j obj key (i + 1) rest

/-- The key that a lookup in `obj` matches. -/
def matchedKey (j : Doc) (obj : Nat) (key : Bytes) : Option Nat :=
  findKey j obj key (obj + 1) (j.tok.drop (obj + 1))

/-- Some token belongs to the token `i`. -/
def HasValue (j : Doc) (i : Nat) : Prop := ∃ t ∈ j.tok, t.parent = some i

/-- Token `i` is a key of the object `obj` and reads `key`. -/
def IsKey (j : Doc) (obj : Nat) (key : Bytes) (i : Nat) : Prop :=
  ∃ k, j.tok[i]? = some k ∧ k.parent = some obj ∧ k.type = .string ∧ j.text k = key

/-- Token `t` is the value of a member of `obj` whose key reads `key`. -/
def IsValue (j : Doc) (obj : Nat) (key : Bytes) (t : Nat) : Prop :=
  ∃ i v, IsKey j obj key i ∧ j.tok[t]? = some v ∧ v.parent = some i

section

variable {j : Doc} {obj : Nat} {key : Bytes}

/-- The key that is found is one, and no key in front of it reads the same. -/
theorem findKey_some {ts : List Tok} {i k : Nat} (hts : j.tok.drop i = ts)
    (h : findKey j obj key i ts = some k) :
    i ≤ k ∧ IsKey j obj key k ∧ ∀ m, i ≤ m → IsKey j obj key m → k ≤ m := by
  induction ts generalizing i with
  | nil => cases h
  | cons t ts ih =>
      have hget : j.tok[i]? = some t := by
        rw [← Nat.add_zero i, ← List.getElem?_drop, hts]
        rfl
      rw [findKey] at h
      split at h
      · next hkey =>
          injection h with h
          subst h
          exact ⟨Nat.le_refl i, ⟨t, hget, hkey⟩, fun m hm _ => hm⟩
      · next hno =>
          obtain ⟨hle, hkey, hfirst⟩ := ih (Doc.drop_succ hts) h
          refine ⟨Nat.le_of_succ_le hle, hkey, fun m hm hkey' => hfirst m ?_ hkey'⟩
          rcases Nat.eq_or_lt_of_le hm with rfl | hlt
          · obtain ⟨u, hu, hu'⟩ := hkey'
            cases hget.symm.trans hu
            exact absurd hu' hno
          · exact hlt

theorem find_eq {ts : List Tok} {i : Nat} (hts : j.tok.drop i = ts) :
    j.find obj key i ts =
      (findKey j obj key i ts).bind fun k => if k + 1 < j.tok.length then some (k + 1) else none := by
  induction ts generalizing i with
  | nil => rfl
  | cons t ts ih =>
      have hih := ih (Doc.drop_succ hts)
      rw [Doc.find, findKey]
      by_cases hkey : t.parent = some obj ∧ t.type = .string ∧ j.text t = key
      · rw [if_pos hkey, Option.bind_some]
        by_cases hlen : i + 1 < j.tok.length
        · rw [if_pos ⟨hkey.1, hkey.2.1, hkey.2.2, hlen⟩, if_pos hlen]
        · -- the key is the last token: there is nothing more to look at
          have hnil : ts = [] := by
            rw [← Doc.drop_succ hts, List.drop_eq_nil_iff]
            exact Nat.not_lt.mp hlen
          rw [if_neg fun h => hlen h.2.2.2, if_neg hlen, hnil, Doc.find]
      · rw [if_neg fun h => hkey ⟨h.1, h.2.1, h.2.2.1⟩, if_neg hkey]
        exact hih

theorem get_eq (hobj : (j.tok[obj]?).any (·.type == .object) = true) :
    j.get obj key = (matchedKey j obj key).bind fun k =>
      if k + 1 < j.tok.length then some (k + 1) else none := by
  rw [Doc.get, if_pos hobj, find_eq rfl, matchedKey]

end

/-- A lookup answers with the value under the key exactly when the key that it
matches has a value, or is the last token. -/
theorem get_value_iff {src key : Bytes} {j : Doc} {obj : Nat} (hj : jsonParse src = some j)
    (hobj : (j.tok[obj]?).any (·.type == .object) = true) :
    (∀ t, j.get obj key = some t → IsValue j obj key t) ↔
      ∀ i, matchedKey j obj key = some i → i + 1 < j.tok.length → HasValue j i := by
  rw [get_eq hobj]
  constructor
  · intro h i hi hlen
    rw [hi, Option.bind_some, if_pos hlen] at h
    obtain ⟨m, v, hm, hv, hparent⟩ := h (i + 1) rfl
    obtain ⟨_, _, hfirst⟩ := findKey_some rfl hi
    obtain ⟨k, hk, hkparent, _⟩ := id hm
    have hobjlt := (jsonParse_linked hj hk hkparent).1
    have hmlt := (jsonParse_linked hj hv hparent).1
    have hle := hfirst m (by omega) hm
    obtain rfl : m = i := by omega
    exact ⟨v, List.mem_of_getElem? hv, hparent⟩
  · intro h t ht
    obtain ⟨i, hi, ht⟩ := Option.bind_eq_some_iff.mp ht
    split at ht
    · next hlen =>
        injection ht with ht
        subst ht
        obtain ⟨_, hkey, _⟩ := findKey_some rfl hi
        obtain ⟨v, hv, hparent⟩ := h i hi hlen
        obtain ⟨k, hk⟩ := List.mem_iff_getElem?.mp hv
        obtain ⟨_, u, hu, huparent⟩ := jsonParse_linked hj hk hparent
        exact ⟨i, u, hkey, hu, huparent⟩
    · cases ht

/-- The text of an object whose first key has no value. -/
def bareKey : Bytes := lit "\x7b\"a\",\"b\":1\x7d"

theorem bareKey_parses : ∃ j, jsonParse bareKey = some j ∧
    j.tok = [⟨.object, 0, some 11, 2, none⟩, ⟨.string, 2, some 3, 0, some 0⟩,
      ⟨.string, 6, some 7, 1, some 0⟩, ⟨.primitive, 9, some 10, 0, some 2⟩] := by
  have htok : (jsonParse bareKey).map (·.tok) =
      some [⟨.object, 0, some 11, 2, none⟩, ⟨.string, 2, some 3, 0, some 0⟩,
        ⟨.string, 6, some 7, 1, some 0⟩, ⟨.primitive, 9, some 10, 0, some 2⟩] := by
    decide +kernel
  exact Option.map_eq_some_iff.mp htok

/-- The second key has one, and is found. -/
theorem get_value_iff_second : ∃ j, jsonParse bareKey = some j ∧
    ∀ t, j.get 0 (lit "b") = some t → IsValue j 0 (lit "b") t := by
  obtain ⟨j, hj, htok⟩ := bareKey_parses
  have hobj : (j.tok[0]?).any (·.type == .object) = true := by
    rw [htok]
    rfl
  have hkey : (jsonParse bareKey).bind (matchedKey · 0 (lit "b")) = some 2 := by decide +kernel
  refine ⟨j, hj, (get_value_iff hj hobj).mpr fun i hi _ => ?_⟩
  rw [hj, Option.bind_some, hi] at hkey
  injection hkey with hkey
  subst hkey
  refine ⟨⟨.primitive, 9, some 10, 0, some 2⟩, ?_, rfl⟩
  rw [htok]
  simp

/-- The first has none, and the lookup answers with the second key. -/
theorem get_not_value : ∃ j, jsonParse bareKey = some j ∧
    (j.tok[0]?).any (·.type == .object) = true ∧ j.get 0 (lit "a") = some 2 ∧
    ¬ IsValue j 0 (lit "a") 2 := by
  obtain ⟨j, hj, htok⟩ := bareKey_parses
  have hget : (jsonParse bareKey).bind (·.get 0 (lit "a")) = some 2 := by decide +kernel
  rw [hj, Option.bind_some] at hget
  refine ⟨j, hj, ?_, hget, ?_⟩
  · rw [htok]
    rfl
  · rintro ⟨i, v, ⟨k, hk, hkparent, _⟩, hv, hparent⟩
    rw [htok] at hv hk
    injection hv with hv
    subst hv
    injection hparent with hparent
    subst hparent
    injection hk with hk
    subst hk
    cases hkparent

end GeistServe.Proofs
