import GeistServe.Proofs.Tokens

/-!
# Reading a tree from its tokens

The lookup helpers of `json.c` on the tokens of a printed tree. `Node j i v` says
that token `i` of `j` is the first of the tree `v` and that no token behind the
tree has its parent in it; the key that `json_get` finds and each token that a
walk by parent links meets are nodes again.
-/

namespace GeistServe.Json

open GeistServe.Lib

/-- Token `i` is the first token of `v`, and what is behind `v` does not reach
into it. -/
def Node (j : Doc) (i : Nat) (v : Tree) : Prop :=
  ∃ pos parent back behind, j.src.drop pos = v.print ++ back ∧
    j.tok.drop i = v.toks pos i parent ++ behind ∧
    ∀ t ∈ behind, ∀ p, t.parent = some p → p < i ∨ i + v.count ≤ p

/-- The first member under the key. -/
def lookup (key : Bytes) (ms : List (Bytes × Tree)) : Option Tree :=
  (ms.find? fun m => decide (m.1 = key)).map (·.2)

theorem lookup_cons_eq (key : Bytes) (v : Tree) (ms : List (Bytes × Tree)) :
    lookup key ((key, v) :: ms) = some v := by
  rw [lookup, List.find?_cons_of_pos (by simp)]
  rfl

theorem lookup_cons_ne {key k : Bytes} (v : Tree) (ms : List (Bytes × Tree)) (h : k ≠ key) :
    lookup key ((k, v) :: ms) = lookup key ms := by
  rw [lookup, List.find?_cons_of_neg (by simpa using h)]
  rfl

/-! ## The root -/

theorem Node.root {j : Doc} {ms : List (Bytes × Tree)} (hms : ValidMembers ms)
    (h : jsonParse (Tree.obj ms).print = some j) : Node j 0 (.obj ms) := by
  rw [jsonParse_print hms] at h
  split at h
  · cases h
    exact ⟨0, none, [], [], by simp, by simp, fun t ht => absurd ht List.not_mem_nil⟩
  · cases h

/-! ## Tokens that are passed over -/

/-- Every parent link of the tokens that goes anywhere goes to `lo` or behind. -/
theorem Within.ne {lo base i : Nat} {ts : List Tok} (h : Within lo base ts) (hi : i < lo) {t : Tok}
    (ht : t ∈ ts) : t.parent ≠ some i := by
  obtain ⟨k, hk⟩ := List.mem_iff_getElem?.mp ht
  obtain ⟨_, j, hj, hlo, _⟩ := h k t hk
  rw [hj]
  intro hcontra
  cases hcontra
  omega

theorem Tree.toks_ne {v : Tree} {pos base i j : Nat} (hi : i < j) (hj : j < base) {t : Tok}
    (ht : t ∈ v.toks pos base (some j)) : t.parent ≠ some i :=
  (v.toks_within (Nat.le_refl j) hj).ne hi ht

theorem find_skip (j : Doc) (i : Nat) (key : Bytes) (rest : List Tok) :
    ∀ (ts : List Tok) (n : Nat), (∀ t ∈ ts, t.parent ≠ some i) →
      j.find i key n (ts ++ rest) = j.find i key (n + ts.length) rest := by
  intro ts
  induction ts with
  | nil =>
      intro n _
      rfl
  | cons t ts ih =>
      intro n h
      rw [List.cons_append, Doc.find, if_neg fun hc => h t List.mem_cons_self hc.1,
        ih _ fun u hu => h u (List.mem_cons_of_mem _ hu), List.length_cons]
      congr 1
      omega

theorem find_none (j : Doc) (i : Nat) (key : Bytes) (ts : List Tok) (n : Nat)
    (h : ∀ t ∈ ts, t.parent ≠ some i) : j.find i key n ts = none := by
  have hskip := find_skip j i key [] ts n h
  rw [List.append_nil] at hskip
  rw [hskip, Doc.find]

theorem children_skip (list : Nat) (rest : List Tok) :
    ∀ (ts : List Tok) (n : Nat), (∀ t ∈ ts, t.parent ≠ some list) →
      children list n (ts ++ rest) = children list (n + ts.length) rest := by
  intro ts
  induction ts with
  | nil =>
      intro n _
      rfl
  | cons t ts ih =>
      intro n h
      rw [List.cons_append, children, if_neg (h t List.mem_cons_self),
        ih _ fun u hu => h u (List.mem_cons_of_mem _ hu), List.length_cons]
      congr 1
      omega

theorem children_none (list : Nat) (ts : List Tok) (n : Nat)
    (h : ∀ t ∈ ts, t.parent ≠ some list) : children list n ts = [] := by
  have hskip := children_skip list [] ts n h
  rw [List.append_nil] at hskip
  rw [hskip, children]

/-! ## Members and items -/

/-- The parent is `top`, or not in front of `base`. -/
def Beyond (top base : Nat) (t : Tok) : Prop :=
  t.parent = some top ∨ ∃ p, t.parent = some p ∧ base ≤ p

theorem Beyond.mono {top base base' : Nat} {t : Tok} (h : Beyond top base' t) (hle : base ≤ base') :
    Beyond top base t := by
  rcases h with h | ⟨p, hp, hle'⟩
  · exact .inl h
  · exact .inr ⟨p, hp, hle.trans hle'⟩

theorem Within.beyond {lo base top : Nat} {ts : List Tok} (h : Within lo base ts) {t : Tok}
    (ht : t ∈ ts) : Beyond top lo t := by
  obtain ⟨k, hk⟩ := List.mem_iff_getElem?.mp ht
  obtain ⟨_, p, hp, hle, _⟩ := h k t hk
  exact .inr ⟨p, hp, hle⟩

theorem itemToks_beyond {list : Nat} {t : Tok} : ∀ (xs : List Tree) {pos base : Nat} {sep : Bytes},
    t ∈ itemToks pos base list sep xs → Beyond list base t := by
  intro xs
  induction xs with
  | nil =>
      intro pos base sep ht
      cases ht
  | cons x xs ih =>
      intro pos base sep ht
      rw [itemToks, List.mem_append] at ht
      rcases ht with ht | ht
      · obtain ⟨u, us, htoks, _, hparent, hus⟩ := x.toks_root (pos + sep.length) base (some list)
        rw [htoks] at ht
        rcases List.mem_cons.mp ht with rfl | ht
        · exact .inl hparent
        · exact hus.beyond ht
      · exact (ih ht).mono (by omega)

theorem memberToks_beyond {obj : Nat} {t : Tok} :
    ∀ (ms : List (Bytes × Tree)) {pos base : Nat} {sep : Bytes},
      t ∈ memberToks pos base obj sep ms → Beyond obj base t := by
  intro ms
  induction ms with
  | nil =>
      intro pos base sep ht
      cases ht
  | cons m ms ih =>
      intro pos base sep ht
      obtain ⟨key, v⟩ := m
      rw [memberToks, List.mem_cons, List.mem_append] at ht
      rcases ht with rfl | ht | ht
      · exact .inl rfl
      · exact (v.toks_within (Nat.le_refl base) (Nat.lt_succ_self base)).beyond ht
      · exact (ih ht).mono (by omega)

/-- What a lookup finds is the tree under the key. -/
def Found (j : Doc) (v : Option Tree) (r : Option Nat) : Prop :=
  (v = none ∧ r = none) ∨ ∃ w k, v = some w ∧ r = some k ∧ Node j k w

theorem find_members (j : Doc) (i : Nat) (key : Bytes) :
    ∀ (ms : List (Bytes × Tree)) {pos base : Nat} {sep back : Bytes} {behind : List Tok}, i < base →
      j.src.drop pos = printMembers sep ms ++ back →
      j.tok.drop base = memberToks pos base i sep ms ++ behind →
      (∀ t ∈ behind, ∀ p, t.parent = some p → p < i ∨ base + countMembers ms ≤ p) →
      Found j (lookup key ms) (j.find i key base (memberToks pos base i sep ms ++ behind)) := by
  intro ms
  induction ms with
  | nil =>
      intro pos base sep back behind hbase _ _ hbehind
      refine .inl ⟨rfl, find_none j i key _ _ fun t ht hp => ?_⟩
      have := hbehind t ht i hp
      omega
  | cons m ms ih =>
      intro pos base sep back behind hbase hsrc htok hbehind
      obtain ⟨k, v⟩ := m
      rw [memberToks, List.cons_append, List.append_assoc] at htok ⊢
      -- The text and the tokens behind the quote, behind the colon and behind the value.
      have hkey : j.src.drop (pos + sep.length + 1) =
          k ++ (34 :: 58 :: (v.print ++ (printMembers [44] ms ++ back))) := by
        rw [Nat.add_assoc, ← List.drop_drop, hsrc, printMembers]
        simp
      have hval : j.src.drop (pos + sep.length + 1 + k.length + 2) =
          v.print ++ (printMembers [44] ms ++ back) := by
        rw [Nat.add_assoc (pos + sep.length + 1), ← List.drop_drop, hkey, ← List.drop_drop]
        simp
      have hrest : j.src.drop (pos + sep.length + 1 + k.length + 2 + v.print.length) =
          printMembers [44] ms ++ back := by
        rw [← List.drop_drop, hval, List.drop_left]
      have htokv : j.tok.drop (base + 1) = v.toks (pos + sep.length + 1 + k.length + 2) (base + 1)
          (some base) ++ (memberToks (pos + sep.length + 1 + k.length + 2 + v.print.length)
            (base + 1 + v.count) i [44] ms ++ behind) := by
        rw [← List.drop_drop, htok]
        rfl
      have htokr : j.tok.drop (base + 1 + v.count) =
          memberToks (pos + sep.length + 1 + k.length + 2 + v.print.length)
            (base + 1 + v.count) i [44] ms ++ behind := by
        rw [← List.drop_drop, htokv, ← v.toks_length (pos + sep.length + 1 + k.length + 2) (base + 1)
          (some base), List.drop_left]
      rw [countMembers] at hbehind
      have htext : j.text ⟨.string, pos + sep.length + 1, some (pos + sep.length + 1 + k.length), 1,
          some i⟩ = k := by
        rw [Doc.text, hkey]
        simp
      have hlen : base + 1 < j.tok.length := by
        obtain ⟨t, ts, hv, _⟩ := v.toks_root (pos + sep.length + 1 + k.length + 2) (base + 1)
          (some base)
        have := congrArg List.length htokv
        rw [List.length_drop, hv, List.length_append, List.length_cons] at this
        omega
      rw [Doc.find]
      by_cases heq : k = key
      · subst heq
        rw [if_pos ⟨rfl, rfl, htext, hlen⟩, lookup_cons_eq]
        refine .inr ⟨v, base + 1, rfl, rfl, _, _, _, _, hval, htokv, fun t ht p hp => ?_⟩
        rcases List.mem_append.mp ht with ht | ht
        · rcases memberToks_beyond ms ht with h | ⟨q, hq, hle⟩
          · cases h.symm.trans hp
            omega
          · cases hq.symm.trans hp
            omega
        · have := hbehind t ht p hp
          omega
      · rw [if_neg fun h => heq (htext.symm.trans h.2.2.1), lookup_cons_ne v ms heq,
          find_skip _ _ _ _ _ _ fun t ht => v.toks_ne hbase (Nat.lt_succ_self base) ht, v.toks_length]
        exact ih (by omega) hrest htokr fun t ht p hp => by
          have := hbehind t ht p hp
          omega

theorem children_items (j : Doc) (list : Nat) :
    ∀ (xs : List Tree) {pos base : Nat} {sep back : Bytes} {behind : List Tok}, list < base →
      j.src.drop pos = printItems sep xs ++ back →
      j.tok.drop base = itemToks pos base list sep xs ++ behind →
      (∀ t ∈ behind, ∀ p, t.parent = some p → p < list ∨ base + countItems xs ≤ p) →
      List.Forall₂ (Node j) (children list base (itemToks pos base list sep xs ++ behind)) xs := by
  intro xs
  induction xs with
  | nil =>
      intro pos base sep back behind hbase _ _ hbehind
      rw [itemToks, List.nil_append, children_none]
      · exact .nil
      · intro t ht hp
        have := hbehind t ht list hp
        omega
  | cons x xs ih =>
      intro pos base sep back behind hbase hsrc htok hbehind
      rw [itemToks, List.append_assoc] at htok ⊢
      have hval : j.src.drop (pos + sep.length) = x.print ++ (printItems [44] xs ++ back) := by
        rw [← List.drop_drop, hsrc, printItems]
        simp
      have hrest : j.src.drop (pos + sep.length + x.print.length) = printItems [44] xs ++ back := by
        rw [← List.drop_drop, hval, List.drop_left]
      have htokr : j.tok.drop (base + x.count) =
          itemToks (pos + sep.length + x.print.length) (base + x.count) list [44] xs ++ behind := by
        rw [← List.drop_drop, htok, ← x.toks_length (pos + sep.length) base (some list),
          List.drop_left]
      rw [countItems] at hbehind
      have hnode : Node j base x := by
        refine ⟨_, _, _, _, hval, htok, fun t ht p hp => ?_⟩
        rcases List.mem_append.mp ht with ht | ht
        · rcases itemToks_beyond xs ht with h | ⟨q, hq, hle⟩
          · cases h.symm.trans hp
            omega
          · cases hq.symm.trans hp
            omega
        · have := hbehind t ht p hp
          omega
      obtain ⟨t, ts, htoks, _, hparent, hts⟩ := x.toks_root (pos + sep.length) base (some list)
      have hcount := x.toks_length (pos + sep.length) base (some list)
      rw [htoks, List.length_cons] at hcount
      rw [htoks, List.cons_append, children, if_pos hparent,
        children_skip _ _ _ _ fun u hu => hts.ne hbase hu]
      refine .cons hnode ?_
      rw [show base + 1 + ts.length = base + x.count by omega]
      exact ih (by omega) hrest htokr fun t ht p hp => by
        have := hbehind t ht p hp
        omega

/-! ## The helpers on a node -/

/-- What a token shows of the tree it starts. -/
def Tree.type : Tree → JType
  | .str _ => .string
  | .prim _ => .primitive
  | .arr _ => .array
  | .obj _ => .object

def Tree.size : Tree → Nat
  | .str _ => 0
  | .prim _ => 0
  | .arr xs => xs.length
  | .obj ms => ms.length

theorem Node.tok {j : Doc} {i : Nat} {v : Tree} (h : Node j i v) :
    ∃ t, j.tok[i]? = some t ∧ t.type = v.type ∧ t.size = v.size := by
  obtain ⟨pos, parent, back, behind, _, htok, _⟩ := h
  have hget : j.tok[i]? = (v.toks pos i parent ++ behind)[0]? := by
    rw [← htok, List.getElem?_drop, Nat.add_zero]
  rw [hget]
  cases v with
  | str raw => exact ⟨_, rfl, rfl, rfl⟩
  | prim raw => exact ⟨_, rfl, rfl, rfl⟩
  | arr xs => exact ⟨_, rfl, rfl, rfl⟩
  | obj ms => exact ⟨_, rfl, rfl, rfl⟩

theorem Doc.drop_succ {j : Doc} {i : Nat} {t : Tok} {ts : List Tok} (h : j.tok.drop i = t :: ts) :
    j.tok.drop (i + 1) = ts := by
  rw [← List.drop_drop, h]
  rfl

theorem Node.get {j : Doc} {i : Nat} {ms : List (Bytes × Tree)} (h : Node j i (.obj ms))
    (key : Bytes) : Found j (lookup key ms) (j.get i key) := by
  obtain ⟨t, ht, htype, _⟩ := h.tok
  obtain ⟨pos, parent, back, behind, hsrc, htok, hbehind⟩ := h
  have hsrc' : j.src.drop (pos + 1) = printMembers [] ms ++ (125 :: back) := by
    rw [← List.drop_drop, hsrc, Tree.print]
    simp
  rw [Tree.toks, List.cons_append] at htok
  have htok' := Doc.drop_succ htok
  rw [Doc.get, ht, Option.any_some, htype, Tree.type, if_pos (beq_self_eq_true _), htok']
  refine find_members j i key ms (Nat.lt_succ_self i) hsrc' htok' fun t ht p hp => ?_
  have hout := hbehind t ht p hp
  rw [Tree.count] at hout
  omega

theorem Node.get_other {j : Doc} {i : Nat} {v : Tree} (h : Node j i v) (hv : v.type ≠ .object)
    (key : Bytes) : j.get i key = none := by
  obtain ⟨t, ht, htype, _⟩ := h.tok
  rw [Doc.get, ht, Option.any_some, htype, if_neg (by simpa using hv)]

theorem Node.items {j : Doc} {i : Nat} {xs : List Tree} (h : Node j i (.arr xs)) :
    List.Forall₂ (Node j) (j.items i) xs := by
  obtain ⟨pos, parent, back, behind, hsrc, htok, hbehind⟩ := h
  have hsrc' : j.src.drop (pos + 1) = printItems [] xs ++ (93 :: back) := by
    rw [← List.drop_drop, hsrc, Tree.print]
    simp
  rw [Tree.toks, List.cons_append] at htok
  have htok' := Doc.drop_succ htok
  rw [Doc.items, htok']
  refine children_items j i xs (Nat.lt_succ_self i) hsrc' htok' fun t ht p hp => ?_
  have hout := hbehind t ht p hp
  rw [Tree.count] at hout
  omega

/-- The string of a tree, as `json_strdup` copies it. -/
def Tree.str? : Tree → Option Bytes
  | .str raw => some ((unescape raw).takeWhile (· ≠ 0))
  | _ => none

theorem Node.strdup {j : Doc} {i : Nat} {v : Tree} (h : Node j i v) :
    j.strdup (some i) = v.str? := by
  obtain ⟨pos, parent, back, behind, hsrc, htok, _⟩ := h
  have hget : j.tok[i]? = (v.toks pos i parent ++ behind)[0]? := by
    rw [← htok, List.getElem?_drop, Nat.add_zero]
  rw [Doc.strdup, Doc.str?, Option.bind_some, hget]
  cases v with
  | str raw =>
      have htext : j.text ⟨.string, pos + 1, some (pos + 1 + raw.length), 0, parent⟩ = raw := by
        rw [Doc.text, ← List.drop_drop, hsrc, Tree.print]
        simp
      show some ((unescape (j.text _)).takeWhile _) = _
      rw [htext]
      rfl
  | prim raw | arr xs | obj ms => rfl

/-- The member of an object; other trees have none. -/
def Tree.get : Tree → Bytes → Option Tree
  | .obj ms, key => lookup key ms
  | _, _ => none

theorem Node.found {j : Doc} {i : Nat} {v : Tree} (h : Node j i v) (key : Bytes) :
    Found j (v.get key) (j.get i key) := by
  cases v with
  | obj ms => exact h.get key
  | str | prim | arr => exact .inl ⟨rfl, h.get_other (by simp [Tree.type]) key⟩

theorem Node.prim {j : Doc} {i : Nat} {raw : Bytes} (h : Node j i (.prim raw)) :
    ∃ t, j.tok[i]? = some t ∧ j.text t = raw := by
  obtain ⟨pos, parent, back, behind, hsrc, htok, _⟩ := h
  have hget : j.tok[i]? = ((Tree.prim raw).toks pos i parent ++ behind)[0]? := by
    rw [← htok, List.getElem?_drop, Nat.add_zero]
  refine ⟨_, hget.trans rfl, ?_⟩
  rw [Doc.text, hsrc, Tree.print]
  simp

end GeistServe.Json
