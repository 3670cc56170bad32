import GeistServe.App.Compat
import GeistServe.Proofs.Spaced

/-!
# One pass over all tokens, and the elements of an array

What the chat request's parser reads beyond the lookup helpers: every token once, the elements
of an array up to the array's end, and how long an array is in the text. On the tokens of a text
of an object these are the primitives and the keys of the tree, its items, and no less than its
printed length.
-/

namespace GeistServe.Compat

open GeistServe.Lib GeistServe.Geistd GeistServe.Json

/-! ## All tokens -/

mutual

/-- The primitives of a tree, in the order of the text. -/
def prims : Tree → List Bytes
  | .str _ => []
  | .prim raw => [raw]
  | .arr xs => itemPrims xs
  | .obj ms => memberPrims ms

def itemPrims : List Tree → List Bytes
  | [] => []
  | x :: xs => prims x ++ itemPrims xs

def memberPrims : List (Bytes × Tree) → List Bytes
  | [] => []
  | (_, v) :: ms => prims v ++ memberPrims ms

end

/-- The bytes of the primitives among the tokens, and of those right under the root. -/
def primTexts (j : Doc) (ts : List Tok) : List Bytes :=
  (ts.filter fun t => decide (t.type = .primitive)).map j.text

def rootTexts (j : Doc) (ts : List Tok) : List Bytes :=
  (ts.filter fun t => decide (t.parent = some 0)).map j.text

theorem primTexts_append (j : Doc) (ts us : List Tok) :
    primTexts j (ts ++ us) = primTexts j ts ++ primTexts j us := by
  rw [primTexts, List.filter_append, List.map_append]
  rfl

theorem rootTexts_append (j : Doc) (ts us : List Tok) :
    rootTexts j (ts ++ us) = rootTexts j ts ++ rootTexts j us := by
  rw [rootTexts, List.filter_append, List.map_append]
  rfl

theorem rootTexts_none {j : Doc} {ts : List Tok} (h : ∀ t ∈ ts, t.parent ≠ some 0) :
    rootTexts j ts = [] := by
  rw [rootTexts, List.filter_eq_nil_iff.mpr fun t ht => by simpa using h t ht]
  rfl

theorem scan_iff (j : Doc) : ∀ (ts : List Tok) (seen : List Bytes), seen.Nodup →
    (scan j seen ts = true ↔
      (∀ raw ∈ primTexts j ts, validPrimitive raw = true) ∧ (seen ++ rootTexts j ts).Nodup) := by
  intro ts
  induction ts with
  | nil =>
      intro seen hseen
      refine ⟨fun _ => ⟨fun _ h => absurd h List.not_mem_nil, ?_⟩, fun _ => rfl⟩
      rw [rootTexts, List.filter_nil, List.map_nil, List.append_nil]
      exact hseen
  | cons t ts ih =>
      intro seen hseen
      have hprims : (∀ raw ∈ primTexts j (t :: ts), validPrimitive raw = true) ↔
          ¬ (t.type = .primitive ∧ validPrimitive (j.text t) = false) ∧
            ∀ raw ∈ primTexts j ts, validPrimitive raw = true := by
        rw [primTexts, List.filter_cons]
        by_cases ht : t.type = .primitive
        · rw [if_pos (decide_eq_true ht), List.map_cons, List.forall_mem_cons]
          refine ⟨fun h => ⟨fun hc => ?_, h.2⟩, fun h => ⟨?_, h.2⟩⟩
          · rw [h.1] at hc
            cases hc.2
          · cases hvalid : validPrimitive (j.text t) with
            | true => rfl
            | false => exact absurd ⟨ht, hvalid⟩ h.1
        · rw [if_neg (by simpa using ht)]
          exact ⟨fun h => ⟨fun hc => ht hc.1, h⟩, fun h => h.2⟩
      rw [scan, hprims]
      split
      · next hbad => exact ⟨fun h => (by cases h), fun h => absurd hbad h.1.1⟩
      · next hgood =>
          split
          · next hparent =>
              rw [ih seen hseen, rootTexts, rootTexts, List.filter_cons,
                if_neg (by simpa using hparent)]
              exact ⟨fun h => ⟨⟨hgood, h.1⟩, h.2⟩, fun h => ⟨h.1.2, h.2⟩⟩
          · next hparent =>
              have hroot : rootTexts j (t :: ts) = j.text t :: rootTexts j ts := by
                rw [rootTexts, List.filter_cons, if_pos (by simpa using hparent)]
                rfl
              rw [hroot]
              split
              · next hmem =>
                  refine ⟨fun h => (by cases h), fun h => ?_⟩
                  exact absurd rfl ((List.nodup_append.mp h.2).2.2 _ (List.contains_iff_mem.mp hmem) _
                    List.mem_cons_self)
              · next hnew =>
                  have hseen' : (seen ++ [j.text t]).Nodup := by
                    rw [List.nodup_append]
                    refine ⟨hseen, List.nodup_singleton _, fun a ha b hb hab => ?_⟩
                    rw [List.mem_singleton.mp hb] at hab
                    exact hnew (List.contains_iff_mem.mpr (hab ▸ ha))
                  rw [ih _ hseen', List.append_assoc, List.singleton_append]
                  exact ⟨fun h => ⟨⟨hgood, h.1⟩, h.2⟩, fun h => ⟨h.1.2, h.2⟩⟩

/-- The text behind the quote of a first key, behind its colon and behind its value. -/
theorem member_drops {src key : Bytes} {v : Tree} {ms : List (Bytes × Tree)} {pos : Nat}
    {sep back : Bytes} (h : src.drop pos = printMembers sep ((key, v) :: ms) ++ back) :
    src.drop (pos + sep.length + 1) =
        key ++ (34 :: 58 :: (v.print ++ (printMembers [44] ms ++ back))) ∧
      src.drop (pos + sep.length + 1 + key.length + 2) =
        v.print ++ (printMembers [44] ms ++ back) ∧
      src.drop (pos + sep.length + 1 + key.length + 2 + v.print.length) =
        printMembers [44] ms ++ back := by
  have hkey : src.drop (pos + sep.length + 1) =
      key ++ (34 :: 58 :: (v.print ++ (printMembers [44] ms ++ back))) := by
    rw [Nat.add_assoc, ← List.drop_drop, h, printMembers]
    simp
  have hval : src.drop (pos + sep.length + 1 + key.length + 2) =
      v.print ++ (printMembers [44] ms ++ back) := by
    rw [Nat.add_assoc (pos + sep.length + 1), ← List.drop_drop, hkey, ← List.drop_drop]
    simp
  refine ⟨hkey, hval, ?_⟩
  rw [← List.drop_drop, hval, List.drop_left]

mutual

theorem toks_prims {j : Doc} : ∀ (v : Tree) {pos base : Nat} {parent : Option Nat} {back : Bytes},
    j.src.drop pos = v.print ++ back → primTexts j (v.toks pos base parent) = prims v
  | .str raw, _, _, _, _, _ => rfl
  | .prim raw, pos, base, parent, back, h => by
      have htext : j.text ⟨.primitive, pos, some (pos + raw.length), 0, parent⟩ = raw := by
        rw [Doc.text, h, Tree.print]
        simp
      show [j.text _] = [raw]
      rw [htext]
  | .arr xs, pos, base, parent, back, h => by
      have hsrc : j.src.drop (pos + 1) = printItems [] xs ++ (93 :: back) := by
        rw [← List.drop_drop, h, Tree.print]
        simp
      exact itemToks_prims xs hsrc
  | .obj ms, pos, base, parent, back, h => by
      have hsrc : j.src.drop (pos + 1) = printMembers [] ms ++ (125 :: back) := by
        rw [← List.drop_drop, h, Tree.print]
        simp
      exact memberToks_prims ms hsrc

theorem itemToks_prims {j : Doc} : ∀ (xs : List Tree) {pos base list : Nat} {sep back : Bytes},
    j.src.drop pos = printItems sep xs ++ back →
      primTexts j (itemToks pos base list sep xs) = itemPrims xs
  | [], _, _, _, _, _, _ => rfl
  | x :: xs, pos, base, list, sep, back, h => by
      have hval : j.src.drop (pos + sep.length) = x.print ++ (printItems [44] xs ++ back) := by
        rw [← List.drop_drop, h, printItems]
        simp
      have hrest : j.src.drop (pos + sep.length + x.print.length) = printItems [44] xs ++ back := by
        rw [← List.drop_drop, hval, List.drop_left]
      rw [itemToks, primTexts_append, toks_prims x hval, itemToks_prims xs hrest, itemPrims]

theorem memberToks_prims {j : Doc} :
    ∀ (ms : List (Bytes × Tree)) {pos base obj : Nat} {sep back : Bytes},
      j.src.drop pos = printMembers sep ms ++ back →
        primTexts j (memberToks pos base obj sep ms) = memberPrims ms
  | [], _, _, _, _, _, _ => rfl
  | (key, v) :: ms, pos, base, obj, sep, back, h => by
      obtain ⟨_, hval, hrest⟩ := member_drops h
      have hkey (ts : List Tok) : primTexts j (⟨.string, pos + sep.length + 1,
          some (pos + sep.length + 1 + key.length), 1, some obj⟩ :: ts) = primTexts j ts := rfl
      rw [memberToks, hkey, primTexts_append, toks_prims v hval, memberToks_prims ms hrest,
        memberPrims]

end

theorem memberToks_keys {j : Doc} :
    ∀ (ms : List (Bytes × Tree)) {pos base : Nat} {sep back : Bytes}, 0 < base →
      j.src.drop pos = printMembers sep ms ++ back →
        rootTexts j (memberToks pos base 0 sep ms) = ms.map Prod.fst
  | [], _, _, _, _, _, _ => rfl
  | (key, v) :: ms, pos, base, sep, back, hbase, h => by
      obtain ⟨hkey, _, hrest⟩ := member_drops h
      have htext : j.text ⟨.string, pos + sep.length + 1, some (pos + sep.length + 1 + key.length), 1,
          some 0⟩ = key := by
        rw [Doc.text, hkey]
        simp
      have hhead (ts : List Tok) : rootTexts j (⟨.string, pos + sep.length + 1,
          some (pos + sep.length + 1 + key.length), 1, some 0⟩ :: ts) = key :: rootTexts j ts := by
        show j.text _ :: _ = _
        rw [htext]
        rfl
      have hbelow : rootTexts j (v.toks (pos + sep.length + 1 + key.length + 2) (base + 1)
          (some base)) = [] :=
        rootTexts_none fun t ht => v.toks_ne hbase (Nat.lt_succ_self base) ht
      rw [memberToks, hhead, rootTexts_append, hbelow, List.nil_append,
        memberToks_keys ms (by omega) hrest]
      rfl

theorem memberToks_root_string :
    ∀ (ms : List (Bytes × Tree)) {pos base : Nat} {sep : Bytes} {t : Tok}, 0 < base →
      t ∈ memberToks pos base 0 sep ms → t.parent = some 0 → t.type = .string := by
  intro ms
  induction ms with
  | nil =>
      intro pos base sep t _ ht
      cases ht
  | cons m ms ih =>
      intro pos base sep t hbase ht hparent
      obtain ⟨key, v⟩ := m
      rw [memberToks, List.mem_cons, List.mem_append] at ht
      rcases ht with rfl | ht | ht
      · rfl
      · exact absurd hparent (v.toks_ne hbase (Nat.lt_succ_self base) ht)
      · exact ih (by omega) ht hparent

/-- The document of a printed object. -/
def printed (ms : List (Bytes × Tree)) : Doc :=
  ⟨(Tree.obj ms).print, (Tree.obj ms).toks 0 0 none⟩

theorem parse_printed {src : Bytes} {ms : List (Bytes × Tree)} (h : ObjectText src ms)
    (hcap : (Tree.obj ms).count ≤ JSON_TOK_CAP) :
    ∃ j, jsonParse src = some j ∧ Twin j (printed ms) ∧ Shows j 0 (.obj ms) := by
  have hparse := (jsonParse_print h.1).trans (if_pos hcap)
  obtain ⟨j, hj, _, htwin⟩ := jsonParse_spaced h.2 hparse
  exact ⟨j, hj, htwin, _, htwin, Node.root h.1 hparse⟩

theorem primTexts_same {j j' : Doc} {xs : List (Tok × Tok)}
    (h : ∀ x ∈ xs, Same j.src j'.src x.1 x.2) :
    primTexts j (xs.map Prod.fst) = primTexts j' (xs.map Prod.snd) := by
  induction xs with
  | nil => rfl
  | cons x xs ih =>
      have hx := h x List.mem_cons_self
      have hxs := ih fun y hy => h y (List.mem_cons_of_mem x hy)
      rw [primTexts, primTexts] at hxs
      rw [primTexts, primTexts, List.map_cons, List.map_cons, List.filter_cons, List.filter_cons,
        hx.type]
      by_cases ht : x.2.type = .primitive
      · have htext : j.text x.1 = j'.text x.2 := hx.text (.inr (hx.type.trans ht))
        rw [if_pos (decide_eq_true ht), if_pos (decide_eq_true ht), List.map_cons, List.map_cons,
          htext, hxs]
      · rw [if_neg (by simpa using ht), if_neg (by simpa using ht), hxs]

theorem rootTexts_same {j j' : Doc} {xs : List (Tok × Tok)}
    (h : ∀ x ∈ xs, Same j.src j'.src x.1 x.2)
    (hstring : ∀ x ∈ xs, x.2.parent = some 0 → x.2.type = .string) :
    rootTexts j (xs.map Prod.fst) = rootTexts j' (xs.map Prod.snd) := by
  induction xs with
  | nil => rfl
  | cons x xs ih =>
      have hx := h x List.mem_cons_self
      have hxs := ih (fun y hy => h y (List.mem_cons_of_mem x hy)) fun y hy =>
        hstring y (List.mem_cons_of_mem x hy)
      rw [rootTexts, rootTexts] at hxs
      rw [rootTexts, rootTexts, List.map_cons, List.map_cons, List.filter_cons, List.filter_cons,
        hx.parent]
      by_cases ht : x.2.parent = some 0
      · have htext : j.text x.1 = j'.text x.2 :=
          hx.text (.inl (hx.type.trans (hstring x List.mem_cons_self ht)))
        rw [if_pos (decide_eq_true ht), if_pos (decide_eq_true ht), List.map_cons, List.map_cons,
          htext, hxs]
      · rw [if_neg (by simpa using ht), if_neg (by simpa using ht), hxs]

/-- The first pass on a text of an object: the primitives of the tree, and its own keys. -/
theorem scan_twin {j : Doc} {ms : List (Bytes × Tree)} (h : Twin j (printed ms)) :
    scan j [] (j.tok.drop 1) = true ↔
      (∀ raw ∈ memberPrims ms, validPrimitive raw = true) ∧ (ms.map Prod.fst).Nodup := by
  have htoks : (printed ms).tok.drop 1 = memberToks 1 1 0 [] ms := rfl
  have hsrc : (printed ms).src.drop 1 = printMembers [] ms ++ [125] := rfl
  have hprims : primTexts (printed ms) (memberToks 1 1 0 [] ms) = memberPrims ms :=
    memberToks_prims ms hsrc
  have hkeys := memberToks_keys (j := printed ms) ms Nat.one_pos hsrc
  have hstring : ∀ t ∈ (printed ms).tok.drop 1, t.parent = some 0 → t.type = .string :=
    fun t ht => memberToks_root_string ms Nat.one_pos ht
  obtain ⟨ps, pos, pos', hl, hr, htwins⟩ := h
  rw [← htoks, hr, ← List.map_drop] at hprims hkeys
  rw [hr, ← List.map_drop] at hstring
  have hsame : ∀ x ∈ ps.drop 1, Same j.src (printed ms).src x.1 x.2 :=
    fun x hx => htwins.same x (List.mem_of_mem_drop hx)
  have hroot : ∀ x ∈ ps.drop 1, x.2.parent = some 0 → x.2.type = .string :=
    fun x hx => hstring x.2 (List.mem_map_of_mem hx)
  rw [hl, ← List.map_drop, scan_iff j _ [] List.nodup_nil, List.nil_append, primTexts_same hsame,
    rootTexts_same hsame hroot, hprims, hkeys]

/-! ## The elements of an array -/

theorem children_same {list : Nat} {xs : List (Tok × Tok)} (n : Nat)
    (h : ∀ x ∈ xs, x.1.parent = x.2.parent) :
    children list n (xs.map Prod.fst) = children list n (xs.map Prod.snd) := by
  induction xs generalizing n with
  | nil => rfl
  | cons x xs ih =>
      rw [List.map_cons, List.map_cons, children, children,
        ih (n + 1) fun y hy => h y (List.mem_cons_of_mem x hy), h x List.mem_cons_self]

theorem takeWhile_same {p q : Tok → Bool} {xs : List (Tok × Tok)}
    (h : ∀ x ∈ xs, p x.1 = q x.2) : ∃ ys : List (Tok × Tok), (∀ y ∈ ys, y ∈ xs) ∧
      (xs.map Prod.fst).takeWhile p = ys.map Prod.fst ∧
      (xs.map Prod.snd).takeWhile q = ys.map Prod.snd := by
  induction xs with
  | nil => exact ⟨[], fun y hy => hy, rfl, rfl⟩
  | cons x xs ih =>
      obtain ⟨ys, hys, hp, hq⟩ := ih fun y hy => h y (List.mem_cons_of_mem x hy)
      rw [List.map_cons, List.map_cons]
      cases hx : q x.2 with
      | true =>
          refine ⟨x :: ys, ?_, ?_, ?_⟩
          · exact List.cons_subset_cons x hys
          · rw [List.takeWhile_cons_of_pos ((h x List.mem_cons_self).trans hx), hp]
            rfl
          · rw [List.takeWhile_cons_of_pos hx, hq]
            rfl
      | false =>
          refine ⟨[], fun y hy => absurd hy List.not_mem_nil, ?_, ?_⟩
          · rw [List.takeWhile_cons_of_neg (by rw [h x List.mem_cons_self, hx]; decide)]
            rfl
          · rw [List.takeWhile_cons_of_neg (by rw [hx]; decide)]
            rfl

theorem elements_twin {j j' : Doc} (h : Twin j j') (i : Nat) : elements j i = elements j' i := by
  obtain ⟨ps, pos, pos', hl, hr, htwins⟩ := h
  have hbound : ∀ x ∈ ps.drop (i + 1),
      decide (x.1.start < stopOf j i) = decide (x.2.start < stopOf j' i) := by
    intro x hx
    rw [stopOf, stopOf, hl, hr, List.getElem?_map, List.getElem?_map]
    cases hy : ps[i]? with
    | none => rfl
    | some y =>
        have hmem := List.mem_of_getElem? hy
        have hstop := (htwins.same y hmem).stop
        show decide (x.1.start < y.1.stop.getD 0) = decide (x.2.start < y.2.stop.getD 0)
        cases he : y.1.stop with
        | none =>
            rw [hstop.mp he]
            rfl
        | some e =>
            cases he' : y.2.stop with
            | none =>
                rw [hstop.mpr he'] at he
                cases he
            | some e' =>
                exact decide_eq_decide.mpr
                  (htwins.order x (List.mem_of_mem_drop hx) y hmem e e' he he')
  obtain ⟨ys, hys, hp, hq⟩ := takeWhile_same (p := fun t => decide (t.start < stopOf j i))
    (q := fun t => decide (t.start < stopOf j' i)) hbound
  have hleft : j.tok.drop (i + 1) = (ps.drop (i + 1)).map Prod.fst := by rw [hl, List.map_drop]
  have hright : j'.tok.drop (i + 1) = (ps.drop (i + 1)).map Prod.snd := by rw [hr, List.map_drop]
  rw [elements, elements, hleft, hright, hp, hq]
  refine children_same (i + 1) fun y hy => ?_
  exact (htwins.same y (List.mem_of_mem_drop (hys y hy))).parent

mutual

/-- Every token of a tree starts in front of its end. -/
theorem toks_start : ∀ (v : Tree) {pos base : Nat} {parent : Option Nat}, v.Valid →
    ∀ t ∈ v.toks pos base parent, t.start < pos + v.print.length
  | .str raw, pos, base, parent, _, t, ht => by
      rw [List.mem_singleton.mp ht, Tree.print]
      show pos + 1 < _
      simp only [List.length_cons, List.length_append]
      omega
  | .prim raw, pos, base, parent, hv, t, ht => by
      rw [List.mem_singleton.mp ht, Tree.print]
      obtain ⟨c, hc, _⟩ := hv.1
      have hpos := List.length_pos_of_mem (List.mem_of_mem_head? hc)
      show pos < pos + raw.length
      omega
  | .arr xs, pos, base, parent, hv, t, ht => by
      rw [Tree.print]
      simp only [List.length_cons, List.length_append]
      rcases List.mem_cons.mp ht with rfl | ht
      · show pos < _
        omega
      · have := itemToks_start xs hv t ht
        omega
  | .obj ms, pos, base, parent, hv, t, ht => by
      rw [Tree.print]
      simp only [List.length_cons, List.length_append]
      rcases List.mem_cons.mp ht with rfl | ht
      · show pos < _
        omega
      · have := memberToks_start ms hv t ht
        omega

theorem itemToks_start : ∀ (xs : List Tree) {pos base list : Nat} {sep : Bytes}, ValidItems xs →
    ∀ t ∈ itemToks pos base list sep xs, t.start < pos + (printItems sep xs).length
  | x :: xs, pos, base, list, sep, hv, t, ht => by
      rw [itemToks, List.mem_append] at ht
      rw [printItems]
      simp only [List.length_append]
      rcases ht with ht | ht
      · have := toks_start x hv.1 t ht
        omega
      · have := itemToks_start xs hv.2 t ht
        omega

theorem memberToks_start : ∀ (ms : List (Bytes × Tree)) {pos base obj : Nat} {sep : Bytes},
    ValidMembers ms →
      ∀ t ∈ memberToks pos base obj sep ms, t.start < pos + (printMembers sep ms).length
  | (key, v) :: ms, pos, base, obj, sep, hv, t, ht => by
      rw [memberToks, List.mem_cons, List.mem_append] at ht
      rw [printMembers]
      simp only [List.length_append, List.length_cons]
      rcases ht with rfl | ht | ht
      · show pos + sep.length + 1 < _
        omega
      · have := toks_start v hv.2.1 t ht
        omega
      · have := memberToks_start ms hv.2.2 t ht
        omega

end

theorem children_append (list : Nat) : ∀ (ts us : List Tok) (n : Nat),
    (∀ u ∈ us, u.parent ≠ some list) → children list n (ts ++ us) = children list n ts
  | [], us, n, h => children_none list us n h
  | t :: ts, us, n, h => by
      rw [List.cons_append, children, children, children_append list ts us (n + 1) h]

theorem elements_node {j : Doc} {i : Nat} {xs : List Tree} (h : Node j i (.arr xs))
    (hv : ValidItems xs) : elements j i = j.items i := by
  obtain ⟨pos, parent, back, behind, _, htok, hbehind⟩ := h
  rw [Tree.toks, List.cons_append] at htok
  have hget : j.tok[i]? = some ⟨.array, pos, some (pos + 1 + (printItems [] xs).length + 1),
      xs.length, parent⟩ := by
    have hdrop : (j.tok.drop i)[0]? = j.tok[i]? := by rw [List.getElem?_drop, Nat.add_zero]
    rw [← hdrop, htok]
    rfl
  have hstop : stopOf j i = pos + 1 + (printItems [] xs).length + 1 := by
    rw [stopOf, hget]
    rfl
  have hout : ∀ u ∈ behind, u.parent ≠ some i := by
    intro u hu hp
    have hcount : 1 ≤ (Tree.arr xs).count := Nat.le_add_right 1 _
    have := hbehind u hu i hp
    omega
  have hin : ∀ t ∈ itemToks (pos + 1) (i + 1) i [] xs,
      decide (t.start < stopOf j i) = true := by
    intro t ht
    have hlt := itemToks_start xs hv t ht
    rw [hstop, decide_eq_true_eq]
    omega
  rw [elements, Doc.items, Doc.drop_succ htok, List.takeWhile_append_of_pos hin,
    children_append _ _ _ _ hout, children_append]
  exact fun u hu => hout u (List.takeWhile_subset _ hu)

theorem elements_shows {j : Doc} {i : Nat} {xs : List Tree} (h : Shows j i (.arr xs))
    (hv : ValidItems xs) : List.Forall₂ (Shows j) (elements j i) xs := by
  have hitems := h.items
  obtain ⟨j', htwin, hnode⟩ := h
  rwa [elements_twin htwin, elements_node hnode hv, ← htwin.items]

/-- An array is no shorter in the text than it is printed. -/
theorem span_shows {j : Doc} {i : Nat} {xs : List Tree} (h : Shows j i (.arr xs)) :
    (printItems [] xs).length ≤ spanOf j i := by
  obtain ⟨j', htwin, pos, parent, back, behind, _, htok, _⟩ := h
  rw [Tree.toks, List.cons_append] at htok
  have hget : j'.tok[i]? = some ⟨.array, pos, some (pos + 1 + (printItems [] xs).length + 1),
      xs.length, parent⟩ := by
    have hdrop : (j'.tok.drop i)[0]? = j'.tok[i]? := by rw [List.getElem?_drop, Nat.add_zero]
    rw [← hdrop, htok]
    rfl
  obtain ⟨t, ht, hsame⟩ := htwin.tok hget
  have hspan := hsame.span
  rw [spanOf, stopOf, ht]
  show _ ≤ t.stop.getD 0 - t.start
  have hprinted : (printItems [] xs).length ≤
      (some (pos + 1 + (printItems [] xs).length + 1)).getD 0 - pos := by
    show _ ≤ pos + 1 + (printItems [] xs).length + 1 - pos
    omega
  exact Nat.le_trans hprinted hspan

end GeistServe.Compat
