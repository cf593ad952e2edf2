import Xv6.PageFreeSpec

namespace Xv6.PageMem

/-- The successor of a page in its set; the last one leads back to the first. -/
theorem nextPage_eq {s : PageMem} {f q : Nat} {tl pre post : List Nat}
    (ring : s.link.IsRing (.page f) (tl.map .page)) (split : f :: tl = pre ++ q :: post) :
    s.nextPage q = .page (post.headD f) := by
  have close : ∀ (l : List Nat), ((l.map PageNode.page) ++ [PageNode.page f]).head (by simp) = .page (l.headD f) := by
    intro l
    cases l <;> rfl
  cases pre with
  | nil =>
    obtain ⟨rfl, rfl⟩ := List.cons.inj split
    rw [nextPage, ring.next_head, close]
  | cons x xs =>
    obtain ⟨rfl, rfl⟩ := List.cons.inj split
    have ring' : s.link.IsRing (.page f) (xs.map .page ++ .page q :: post.map .page) := by simpa using ring
    rw [nextPage, ring'.next_mid, close]

theorem headLen_spec {s : PageMem} {f base fuel : Nat} {tl xs₁ xs₂ post : List Nat}
    (ring : s.link.IsRing (.page f) (tl.map .page)) (split : f :: tl = xs₁ ++ xs₂ ++ base :: post)
    (reserved : ∀ p ∈ f :: tl, (s.page p).reserved = true) (nodup : (f :: tl).Nodup)
    (enough : xs₂.length < fuel) :
    s.headLen base fuel (.page ((xs₂ ++ base :: post).headD f)) xs₁.length = .ok (xs₁.length + xs₂.length) := by
  induction xs₂ generalizing xs₁ fuel with
  | nil =>
    obtain ⟨n, rfl⟩ := Nat.exists_eq_succ_of_ne_zero (by omega : fuel ≠ 0)
    simp [headLen]
  | cons x xs ih =>
    obtain ⟨n, rfl⟩ := Nat.exists_eq_succ_of_ne_zero (by omega : fuel ≠ 0)
    have split' : f :: tl = xs₁ ++ x :: (xs ++ base :: post) := by simpa using split
    have different : x ≠ base := by
      rintro rfl
      rw [split'] at nodup
      have later := (List.nodup_append.mp nodup).2.1
      exact (List.nodup_cons.mp later).1 (by simp)
    have here : (s.page x).reserved = true := reserved x (split' ▸ by simp)
    have rest := ih (by simpa using split : f :: tl = (xs₁ ++ [x]) ++ xs ++ base :: post)
      (by simp at enough; omega : xs.length < n)
    rw [List.length_append, List.length_singleton] at rest
    simp only [List.cons_append, List.headD_cons, headLen, different, here, if_true, if_false,
      nextPage_eq ring split', rest, List.length_cons]
    congr 1
    omega

theorem findLast_spec {s : PageMem} {f base : Nat} {tl pre ms post : List Nat}
    (ring : s.link.IsRing (.page f) (tl.map .page)) (split : f :: tl = pre ++ ms ++ post)
    (reserved : ∀ p ∈ f :: tl, (s.page p).reserved = true)
    (inside : ∀ q ∈ ms, q ≠ f ∨ q = base) :
    s.findLast f base ms.length (.page ((ms ++ post).headD f)) = .ok (.page (post.headD f)) := by
  induction ms generalizing pre with
  | nil => rfl
  | cons q qs ih =>
    have split' : f :: tl = pre ++ q :: (qs ++ post) := by simpa using split
    have here : (s.page q).reserved = true := reserved q (split' ▸ by simp)
    have rest := ih (by simpa using split : f :: tl = (pre ++ [q]) ++ qs ++ post)
      (fun r member => inside r (by simp [member]))
    have guard := inside q (by simp)
    simp only [List.cons_append, List.headD_cons, List.length_cons, findLast, here, and_true,
      nextPage_eq ring split', rest]
    rw [if_pos guard]

/-- What `update_page_list` does to one page structure. -/
def retagged (start count : Nat) (v : Page) : Page :=
  if v.type = .tail then { v with extra := .firstPage start }
  else { v with pageCount := count % 2 ^ 32 }

theorem retag_eq (s : PageMem) (q start count : Nat) :
    s.retag q start count = { s with page := Function.update s.page q (retagged start count (s.page q)) } := by
  by_cases tail : (s.page q).type = .tail
  · simp [retag, retagged, isTail, tail, setFirstPage, setPage]
  · simp [retag, retagged, isTail, tail, setPageCount, setPage]

theorem updatePageList_spec {s : PageMem} {f fuel : Nat} {stop : PageNode} {tl pre zs post : List Nat}
    (start count : Nat) (ring : s.link.IsRing (.page f) (tl.map .page))
    (split : f :: tl = pre ++ zs ++ post) (ends : stop = .page (post.headD f))
    (inside : ∀ q ∈ zs, stop ≠ .page q) (nodup : zs.Nodup) (enough : zs.length < fuel) :
    updatePageList start stop count fuel (.page ((zs ++ post).headD f)) s =
      .ok { s with page := fun q => if q ∈ zs then retagged start count (s.page q) else s.page q } := by
  induction zs generalizing pre s fuel with
  | nil =>
    obtain ⟨n, rfl⟩ := Nat.exists_eq_succ_of_ne_zero (by omega : fuel ≠ 0)
    simp [updatePageList, ends]
  | cons q qs ih =>
    obtain ⟨n, rfl⟩ := Nat.exists_eq_succ_of_ne_zero (by omega : fuel ≠ 0)
    have split' : f :: tl = pre ++ q :: (qs ++ post) := by simpa using split
    have parts := List.nodup_cons.mp nodup
    have differs : PageNode.page q ≠ stop := fun same => inside q (by simp) same.symm
    have next := nextPage_eq ring split'
    have ring' : ({ s with page := Function.update s.page q (retagged start count (s.page q)) } : PageMem).link.IsRing
        (.page f) (tl.map .page) := ring
    have rest := ih ring' (by simpa using split : f :: tl = (pre ++ [q]) ++ qs ++ post)
      (fun r member => inside r (by simp [member])) parts.2 (by simp at enough; omega : qs.length < n)
    simp only [List.cons_append, List.headD_cons, updatePageList, differs, if_false, retag_eq]
    have next' : ({ s with page := Function.update s.page q (retagged start count (s.page q)) } : PageMem).nextPage q =
        .page ((qs ++ post).headD f) := next
    rw [next', rest]
    congr 2
    funext r
    by_cases same : r = q
    · subst same; simp [parts.1]
    · simp [same]

/-- The links after the splits: the rings of the parts of the set. -/
structure Parted (L L' : Links PageNode) (f : Nat) (tl xs ms ys : List Nat) : Prop where
  ring : ∀ x rem, (xs = x :: rem ∨ ms = x :: rem ∨ ys = x :: rem) → L'.IsRing (.page x) (rem.map .page)
  same : ∀ q, q ∉ f :: tl → L.Same L' (.page q)
  sameFree : L.Same L' .freeList

/-- Splitting in front of `y` separates the pages from `y` on. -/
theorem pageSplit_spec {s : PageMem} {f y : Nat} {tl pre ys : List Nat}
    (ring : s.link.IsRing (.page f) (tl.map .page)) (split : f :: tl = (f :: pre) ++ y :: ys) :
    ∃ L, s.pageSplit (.page f) (s.link.prev (.page y)) (.page y) = .ok { s with link := L } ∧
      Parted s.link L f tl (f :: pre) [] (y :: ys) := by
  obtain ⟨-, rfl⟩ := List.cons.inj split
  have ring' : s.link.IsRing (.page f) (pre.map .page ++ .page y :: ys.map .page) := by simpa using ring
  have prev := ring'.prev_mid
  have forward : s.link.next (s.link.prev (.page y)) = .page y :=
    (Links.isRing_rotate.mp ring').next_prev_head
  have rings := ring'.split
  rw [← prev] at rings
  refine ⟨s.link.split (.page f) (s.link.prev (.page y)) (.page y), ?_, ?_, ?_, ?_⟩
  · rw [pageSplit, if_pos ⟨forward, rfl⟩]
  · rintro x rem (same | same | same)
    · obtain ⟨rfl, rfl⟩ := List.cons.inj same
      exact rings.1
    · cases same
    · obtain ⟨rfl, rfl⟩ := List.cons.inj same
      exact rings.2
  · intro q absent
    rw [prev]
    exact Links.split_same ring' (by simpa using absent)
  · rw [prev]
    exact Links.split_same ring' (by simp)

/-- Both splits, each done only when there is something in front of `base` or
behind the freed pages. -/
theorem splits_spec {s : PageMem} {f base : Nat} {tl xs ms ys : List Nat}
    (ring : s.link.IsRing (.page f) (tl.map .page)) (split : f :: tl = xs ++ (base :: ms) ++ ys) :
    ∃ L, (s.splitBefore f (ys.headD f) >>= fun s => s.splitBefore f base) = .ok { s with link := L } ∧
      Parted s.link L f tl xs (base :: ms) ys := by
  have distinct : (f :: tl).Nodup := by
    have nodes := ring.2
    simp only [← List.map_cons] at nodes
    exact nodes.of_map _
  cases xs with
  | nil =>
    obtain ⟨rfl, rfl⟩ := List.cons.inj split
    cases ys with
    | nil =>
      refine ⟨s.link, by simp [splitBefore], ?_, fun q _ => .refl _ _, .refl _ _⟩
      rintro x rem (same | same | same)
      · cases same
      · obtain ⟨rfl, rfl⟩ := List.cons.inj same
        simpa using ring
      · cases same
    | cons y ys =>
      have yf : y ≠ f := fun same => (List.nodup_cons.mp distinct).1 (by simp [same])
      obtain ⟨L, run, parted⟩ := pageSplit_spec ring (by simp : f :: _ = (f :: ms) ++ y :: ys)
      refine ⟨L, by simp [splitBefore, yf, run], ?_, parted.same, parted.sameFree⟩
      rintro x rem (same | same | same)
      · cases same
      · exact parted.ring x rem (.inl same)
      · exact parted.ring x rem (.inr (.inr same))
  | cons x xs =>
    obtain ⟨rfl, rfl⟩ := List.cons.inj split
    have bf : base ≠ f := fun same => (List.nodup_cons.mp distinct).1 (by simp [same])
    cases ys with
    | nil =>
      obtain ⟨L, run, parted⟩ := pageSplit_spec ring (by simp : f :: _ = (f :: xs) ++ base :: ms)
      refine ⟨L, by simp [splitBefore, bf, run], ?_, parted.same, parted.sameFree⟩
      rintro z rem (same | same | same)
      · exact parted.ring z rem (.inl same)
      · exact parted.ring z rem (.inr (.inr same))
      · cases same
    | cons y ys =>
      have yf : y ≠ f := fun same => (List.nodup_cons.mp distinct).1 (by simp [same])
      obtain ⟨L₁, run₁, parted₁⟩ := pageSplit_spec ring
        (by simp : f :: _ = (f :: (xs ++ base :: ms)) ++ y :: ys)
      have front := parted₁.ring f (xs ++ base :: ms) (.inl rfl)
      obtain ⟨L₂, run₂, parted₂⟩ := pageSplit_spec (s := { s with link := L₁ }) front
        (by simp : f :: _ = (f :: xs) ++ base :: ms)
      -- The second split works on the front part only.
      have apart : ∀ q ∈ y :: ys, q ∉ f :: (xs ++ base :: ms) := by
        intro q inBack inFront
        have whole : (f :: (xs ++ base :: ms) ++ y :: ys).Nodup := by simpa using distinct
        exact (List.nodup_append.mp whole).2.2 q inFront q inBack rfl
      refine ⟨L₂, by simp only [splitBefore, Res.ok_bind, yf, bf, ne_eq, not_false_eq_true, if_true,
        List.headD_cons, run₁, run₂], ?_, ?_, parted₁.sameFree.trans parted₂.sameFree⟩
      · rintro z rem (same | same | same)
        · exact parted₂.ring z rem (.inl same)
        · exact parted₂.ring z rem (.inr (.inr same))
        · refine (parted₁.ring z rem (.inr (.inr same))).congr ?_
          intro n member
          have inBack : ∃ q ∈ y :: ys, n = .page q := by
            obtain ⟨rfl, rfl⟩ := List.cons.inj same
            rcases List.mem_cons.mp member with rfl | inside
            · exact ⟨y, by simp, rfl⟩
            · obtain ⟨q, inYs, rfl⟩ := List.mem_map.mp inside
              exact ⟨q, by simp [inYs], rfl⟩
          obtain ⟨q, inYs, rfl⟩ := inBack
          exact parted₂.same q (apart q inYs)
      · intro q absent
        refine (parted₁.same q absent).trans (parted₂.same q ?_)
        intro inside
        apply absent
        simp only [List.append_eq, List.mem_cons, List.mem_append] at inside ⊢
        tauto

/-- The page structures once the three parts of the set are marked: each part
has a first page of type `t` with its length, and tails that know it. -/
structure Marked (s : PageMem) (P : Nat → Page) (f : Nat) (tl xs ms ys : List Nat) : Prop where
  same : ∀ q, q ∉ f :: tl → P q = s.page q
  reserved : ∀ q, (P q).reserved = (s.page q).reserved
  head : ∀ x rem, (xs = x :: rem ∨ ms = x :: rem ∨ ys = x :: rem) →
    (P x).type = (s.page f).type ∧ (P x).pageCount = (rem.length + 1) % 2 ^ 32
  tails : ∀ x rem, (xs = x :: rem ∨ ms = x :: rem ∨ ys = x :: rem) →
    ∀ q ∈ rem, (P q).type = .tail ∧ (P q).extra = .firstPage x

theorem retagged_reserved (start count : Nat) (v : Page) : (retagged start count v).reserved = v.reserved := by
  unfold retagged
  split <;> rfl

theorem retagged_type (start count : Nat) (v : Page) : (retagged start count v).type = v.type := by
  unfold retagged
  split <;> rfl

/-- The marks the updates leave on the parts of the set; `v` are the structures
after the types of `base` and `last` are set. -/
def marks (v : Nat → Page) (f base last : Nat) (xs ms ys : List Nat) (count : Nat) (q : Nat) : Page :=
  if q ∈ ys then retagged last count (v q)
  else if q ∈ base :: ms then retagged base (ms.length + 1) (v q)
  else if q ∈ xs then retagged f xs.length (v q)
  else v q

theorem updates_run {s : PageMem} {f base count fuel : Nat} {tl xs ms ys : List Nat}
    (ring : s.link.IsRing (.page f) (tl.map .page)) (split : f :: tl = xs ++ (base :: ms) ++ ys)
    (parts : xs ≠ [] ∨ ys ≠ []) (enough : tl.length + 1 < fuel) :
    (do
      let s ← updatePageList f (.page base) xs.length fuel (.page f) s
      let s ← updatePageList base (.page (ys.headD f)) (ms.length + 1) fuel (.page base) s
      updatePageList (ys.headD f) (.page f) count fuel (.page (ys.headD f)) s) =
    .ok { s with page := marks s.page f base (ys.headD f) xs ms ys count } := by
  have whole : (f :: tl).Nodup := by
    have nodes := ring.2
    simp only [← List.map_cons] at nodes
    exact nodes.of_map _
  have distinct := whole
  rw [split] at distinct
  have front := List.nodup_append.mp distinct
  have middle := List.nodup_append.mp front.1
  have length : (xs ++ (base :: ms) ++ ys).length = tl.length + 1 := by rw [← split]; rfl
  simp only [List.length_append, List.length_cons] at length
  have entry : PageNode.page f = .page ((xs ++ ((base :: ms) ++ ys)).headD f) := by
    rw [← List.append_assoc, ← split]
    rfl
  have inXs : ∀ q ∈ xs, q ∉ base :: ms := fun q here there => middle.2.2 q here q there rfl
  have inYs : ∀ q ∈ ys, q ∉ xs ∧ q ∉ base :: ms := fun q here =>
    ⟨fun there => front.2.2 q (List.mem_append_left _ there) q here rfl,
      fun there => front.2.2 q (List.mem_append_right _ there) q here rfl⟩
  have headXs : ∀ q ∈ base :: ms, xs ≠ [] → f ≠ q := by
    rintro q member nonempty rfl
    obtain ⟨x, rem, rfl⟩ := List.exists_cons_of_ne_nil nonempty
    obtain ⟨rfl, -⟩ := List.cons.inj split
    exact inXs f (by simp) member
  have first : updatePageList f (.page base) xs.length fuel (.page f) s =
      .ok { s with page := fun q => if q ∈ xs then retagged f xs.length (s.page q) else s.page q } := by
    rw [entry]
    exact updatePageList_spec f xs.length ring (by simpa using split : f :: tl = [] ++ xs ++ ((base :: ms) ++ ys)) rfl
      (fun q member same => inXs q member (by simp [← PageNode.page.inj same])) middle.1 (by omega)
  have second : ∀ P : Nat → Page,
      updatePageList base (.page (ys.headD f)) (ms.length + 1) fuel (.page base) { s with page := P } =
        .ok { s with page := fun q => if q ∈ base :: ms then retagged base (ms.length + 1) (P q) else P q } := by
    intro P
    refine updatePageList_spec (s := { s with page := P }) base (ms.length + 1) ring split rfl ?_ middle.2.1
      (by simp only [List.length_cons]; omega)
    intro q member same
    cases ys with
    | nil => exact headXs q member (by simpa using parts) (PageNode.page.inj same)
    | cons y ys => exact (inYs q (by simp [← PageNode.page.inj same])).2 member
  have third : ∀ P : Nat → Page,
      updatePageList (ys.headD f) (.page f) count fuel (.page (ys.headD f)) { s with page := P } =
        .ok { s with page := fun q => if q ∈ ys then retagged (ys.headD f) count (P q) else P q } := by
    intro P
    have whole : f :: tl = (xs ++ (base :: ms)) ++ ys ++ [] := by simpa using split
    have apart : ∀ q ∈ ys, PageNode.page f ≠ .page q := by
      intro q member same
      have here : f = q := PageNode.page.inj same
      subst here
      have inFront : f ∈ xs ++ (base :: ms) := by
        cases xs with
        | nil => simp [(List.cons.inj split).1]
        | cons x xs => simp [(List.cons.inj split).1]
      exact front.2.2 f inFront f member rfl
    have run := updatePageList_spec (s := { s with page := P }) (ys.headD f) count ring whole rfl apart
      front.2.1 (by omega : ys.length < fuel)
    rw [List.append_nil] at run
    exact run
  simp only [first, bind, Except.bind]
  simp only [second, third]
  congr 2
  funext q
  simp only [marks]
  by_cases inY : q ∈ ys
  · simp only [inY, if_true, (inYs q inY).1, (inYs q inY).2, if_false]
  · by_cases inM : q ∈ base :: ms
    · have notX : q ∉ xs := fun here => inXs q here inM
      simp only [inY, inM, notX, if_true, if_false]
    · simp only [inY, inM, if_false]

theorem retagged_head {start count : Nat} {v : Page} (head : v.type ≠ .tail) :
    (retagged start count v).pageCount = count % 2 ^ 32 := by
  simp [retagged, head]

theorem retagged_tail {start count : Nat} {v : Page} (tail : v.type = .tail) :
    (retagged start count v).extra = .firstPage start := by
  simp [retagged, tail]

/-- The parts of a set, each entered with its first page, share no page. -/
structure Parts (f : Nat) (tl xs : List Nat) (base : Nat) (ms ys : List Nat) : Prop where
  split : f :: tl = xs ++ (base :: ms) ++ ys
  distinct : (f :: tl).Nodup

namespace Parts

variable {f base : Nat} {tl xs ms ys : List Nat}

theorem length (parts : Parts f tl xs base ms ys) : xs.length + (ms.length + 1) + ys.length = tl.length + 1 := by
  have whole : (xs ++ (base :: ms) ++ ys).length = tl.length + 1 := by rw [← parts.split]; rfl
  simpa only [List.length_append, List.length_cons] using whole

theorem front_not_back (parts : Parts f tl xs base ms ys) {q : Nat} (member : q ∈ xs ++ (base :: ms)) : q ∉ ys := by
  have distinct := parts.distinct
  rw [parts.split] at distinct
  exact fun back => (List.nodup_append.mp distinct).2.2 q member q back rfl

theorem front_not_middle (parts : Parts f tl xs base ms ys) {q : Nat} (member : q ∈ xs) : q ∉ base :: ms := by
  have distinct := parts.distinct
  rw [parts.split] at distinct
  have front := (List.nodup_append.mp distinct).1
  exact fun middle => (List.nodup_append.mp front).2.2 q member q middle rfl

theorem tail_not_head (parts : Parts f tl xs base ms ys) {x q : Nat} {rem : List Nat}
    (part : xs = x :: rem ∨ base :: ms = x :: rem ∨ ys = x :: rem) (member : q ∈ rem) :
    q ∈ tl ∧ q ≠ base ∧ q ≠ ys.headD f := by
  have distinct := parts.distinct
  rw [parts.split] at distinct
  have front := List.nodup_append.mp distinct
  have middle := List.nodup_append.mp front.1
  have inside : q ∈ f :: tl ∧ q ≠ f := by
    rw [parts.split]
    rcases part with rfl | same | rfl
    · obtain ⟨rfl, -⟩ := List.cons.inj parts.split
      refine ⟨by simp [member], ?_⟩
      rintro rfl
      exact (List.nodup_cons.mp middle.1).1 member
    · obtain ⟨rfl, rfl⟩ := List.cons.inj same
      refine ⟨by simp [member], ?_⟩
      rintro rfl
      cases xs with
      | nil =>
        obtain ⟨rfl, -⟩ := List.cons.inj parts.split
        exact (List.nodup_cons.mp middle.2.1).1 member
      | cons z zs =>
        obtain ⟨rfl, -⟩ := List.cons.inj parts.split
        exact parts.front_not_middle (q := q) (by simp) (by simp [member])
    · refine ⟨by simp [member], ?_⟩
      rintro rfl
      have inFront : q ∈ xs ++ (base :: ms) := by
        cases xs with
        | nil => simp [(List.cons.inj parts.split).1]
        | cons z zs => simp [(List.cons.inj parts.split).1]
      exact parts.front_not_back inFront (by simp [member])
  have inTail : q ∈ tl := by
    rcases List.mem_cons.mp inside.1 with same | old
    · exact absurd same inside.2
    · exact old
  refine ⟨inTail, ?_, ?_⟩
  · rintro rfl
    rcases part with rfl | same | rfl
    · exact parts.front_not_middle (q := q) (by simp [member]) (by simp)
    · obtain ⟨rfl, rfl⟩ := List.cons.inj same
      exact (List.nodup_cons.mp middle.2.1).1 member
    · exact parts.front_not_back (q := q) (by simp) (by simp [member])
  · rintro rfl
    cases ys with
    | nil => exact inside.2 rfl
    | cons y ys =>
      rw [List.headD_cons] at member
      rcases part with rfl | same | same
      · exact parts.front_not_back (q := y) (by simp [member]) (by simp)
      · obtain ⟨rfl, rfl⟩ := List.cons.inj same
        exact parts.front_not_back (q := y) (by simp [member]) (by simp)
      · obtain ⟨rfl, rfl⟩ := List.cons.inj same
        exact (List.nodup_cons.mp front.2.1).1 member

theorem ends_inside (parts : Parts f tl xs base ms ys) : base ∈ f :: tl ∧ ys.headD f ∈ f :: tl := by
  refine ⟨by rw [parts.split]; simp, ?_⟩
  cases ys with
  | nil => simp
  | cons y ys => rw [parts.split]; simp

end Parts

/-- The marks on a part whose first page has type `t` and whose others are tails. -/
theorem marked_of_marks {s : PageMem} {f base count : Nat} {tl xs ms ys : List Nat} {v : Nat → Page}
    (set : AllocSet s f tl) (parts : Parts f tl xs base ms ys) (counted : count % 2 ^ 32 = ys.length % 2 ^ 32)
    (heads : ∀ q, q = base ∨ q = ys.headD f → v q = { s.page q with type := (s.page f).type })
    (others : ∀ q, q ≠ base → q ≠ ys.headD f → v q = s.page q) :
    Marked s (marks v f base (ys.headD f) xs ms ys count) f tl xs (base :: ms) ys := by
  have typed : ∀ q, q = f ∨ q = base ∨ q = ys.headD f → (v q).type = (s.page f).type := by
    intro q named
    by_cases ends : q = base ∨ q = ys.headD f
    · rw [heads q ends]
    · rw [others q (fun same => ends (.inl same)) (fun same => ends (.inr same))]
      rcases named with rfl | here
      · rfl
      · exact absurd here ends
  have outside : ∀ q, q ∉ f :: tl → q ∉ xs ∧ q ∉ base :: ms ∧ q ∉ ys := by
    intro q absent
    rw [parts.split] at absent
    simp only [List.mem_append, not_or] at absent
    exact ⟨absent.1.1, absent.1.2, absent.2⟩
  constructor
  · intro q absent
    obtain ⟨notX, notM, notY⟩ := outside q absent
    obtain ⟨baseIn, lastIn⟩ := parts.ends_inside
    rw [marks, if_neg notY, if_neg notM, if_neg notX]
    exact others q (fun same => absent (same ▸ baseIn)) (fun same => absent (same ▸ lastIn))
  · intro q
    have kept : (v q).reserved = (s.page q).reserved := by
      by_cases ends : q = base ∨ q = ys.headD f
      · rw [heads q ends]
      · rw [others q (fun same => ends (.inl same)) (fun same => ends (.inr same))]
    rw [← kept, marks]
    split_ifs <;> simp only [retagged_reserved]
  · rintro x rem (rfl | same | rfl)
    · obtain ⟨rfl, -⟩ := List.cons.inj parts.split
      have notY := parts.front_not_back (q := f) (by simp)
      have notM := parts.front_not_middle (q := f) (by simp)
      have type := typed f (.inl rfl)
      rw [marks, if_neg notY, if_neg notM, if_pos (by simp), retagged_type]
      exact ⟨type, retagged_head (type ▸ set.head)⟩
    · obtain ⟨rfl, rfl⟩ := List.cons.inj same
      have notY := parts.front_not_back (q := base) (by simp)
      have type := typed base (.inr (.inl rfl))
      rw [marks, if_neg notY, if_pos (by simp), retagged_type]
      exact ⟨type, retagged_head (type ▸ set.head)⟩
    · have type := typed x (.inr (.inr rfl))
      rw [List.headD_cons, marks, if_pos (by simp), retagged_type]
      refine ⟨type, ?_⟩
      rw [retagged_head (type ▸ set.head), counted]
      rfl
  · intro x rem part q member
    obtain ⟨inTail, notBase, notLast⟩ := parts.tail_not_head part member
    have tail := (set.tails q inTail).1
    have here := others q notBase notLast
    rcases part with rfl | same | rfl
    · obtain ⟨rfl, -⟩ := List.cons.inj parts.split
      have notY := parts.front_not_back (q := q) (by simp [member])
      have notM := parts.front_not_middle (q := q) (by simp [member])
      rw [marks, if_neg notY, if_neg notM, if_pos (by simp [member]), retagged_type, here]
      exact ⟨tail, retagged_tail tail⟩
    · obtain ⟨rfl, rfl⟩ := List.cons.inj same
      have notY := parts.front_not_back (q := q) (by simp [member])
      rw [marks, if_neg notY, if_pos (by simp [member]), retagged_type, here]
      exact ⟨tail, retagged_tail tail⟩
    · rw [List.headD_cons, marks, if_pos (by simp [member]), retagged_type, here]
      exact ⟨tail, retagged_tail tail⟩

theorem setTypes_eq (s : PageMem) (base last : Nat) (t : PageType) :
    (s.setType base t).setType last t =
      { s with page := fun q => if q = base ∨ q = last then { s.page q with type := t } else s.page q } := by
  simp only [setType, setPage]
  congr 1
  funext q
  by_cases atLast : q = last
  · subst atLast
    by_cases same : q = base <;> simp [same]
  · rw [Function.update_of_ne atLast]
    by_cases atBase : q = base
    · subst atBase
      simp
    · simp [atLast, atBase]

/-- The three updates mark the three parts. When the whole set is freed each of
them starts where it stops, and the marks are already right. -/
theorem updates_spec {s : PageMem} {f base count fuel : Nat} {tl xs ms ys : List Nat}
    (set : AllocSet s f tl) (parts : Parts f tl xs base ms ys) (counted : count % 2 ^ 32 = ys.length % 2 ^ 32)
    (enough : tl.length + 1 < fuel) :
    ∃ P, (do
      let s := (s.setType base (s.page f).type).setType (ys.headD f) (s.page f).type
      let s ← updatePageList f (.page base) xs.length fuel (.page f) s
      let s ← updatePageList base (.page (ys.headD f)) (ms.length + 1) fuel (.page base) s
      updatePageList (ys.headD f) (.page f) count fuel (.page (ys.headD f)) s) = Except.ok { s with page := P } ∧
    Marked s P f tl xs (base :: ms) ys := by
  by_cases proper : xs ≠ [] ∨ ys ≠ []
  · refine ⟨_, ?_, marked_of_marks (v := fun q => if q = base ∨ q = ys.headD f then
      { s.page q with type := (s.page f).type } else s.page q) set parts counted ?_ ?_⟩
    · simp only [setTypes_eq]
      exact updates_run (s := { s with page := _ }) set.ring parts.split proper enough
    · intro q ends
      rw [if_pos ends]
    · intro q notBase notLast
      rw [if_neg (not_or.mpr ⟨notBase, notLast⟩)]
  · simp only [ne_eq, not_or, not_not] at proper
    obtain ⟨rfl, rfl⟩ := proper
    have split := parts.split
    simp only [List.nil_append, List.append_nil] at split
    obtain ⟨rfl, rfl⟩ := List.cons.inj split
    obtain ⟨n, rfl⟩ := Nat.exists_eq_succ_of_ne_zero (by omega : fuel ≠ 0)
    have typed : (s.setType f (s.page f).type).setType f (s.page f).type = { s with page := s.page } := by
      simp [setType, setPage]
    refine ⟨s.page, ?_, fun _ _ => rfl, fun _ => rfl, ?_, ?_⟩
    · simp only [List.headD_nil, typed]
      simp [updatePageList, bind, Except.bind]
    · rintro x rem (same | same | same)
      · cases same
      · obtain ⟨rfl, rfl⟩ := List.cons.inj same
        exact ⟨rfl, set.count⟩
      · cases same
    · rintro x rem (same | same | same)
      · cases same
      · obtain ⟨rfl, rfl⟩ := List.cons.inj same
        exact set.tails
      · cases same

/-- After the splits each part is an allocated set. -/
theorem Marked.allocSet {s : PageMem} {P : Nat → Page} {L : Links PageNode} {f x : Nat} {tl xs ms ys rem : List Nat}
    (marked : Marked s P f tl xs ms ys) (parted : Parted s.link L f tl xs ms ys) (set : AllocSet s f tl)
    (split : f :: tl = xs ++ ms ++ ys) (part : xs = x :: rem ∨ ms = x :: rem ∨ ys = x :: rem) :
    AllocSet { s with page := P, link := L } x rem := by
  have inside : ∀ q ∈ x :: rem, q ∈ f :: tl := by
    intro q member
    rw [split]
    rcases part with rfl | rfl | rfl
    · exact List.mem_append_left _ (List.mem_append_left _ member)
    · exact List.mem_append_left _ (List.mem_append_right _ member)
    · exact List.mem_append_right _ member
  have sorted : (x :: rem).Pairwise (· < ·) := by
    have whole := set.sorted
    rw [split] at whole
    have outer := List.pairwise_append.mp whole
    have inner := List.pairwise_append.mp outer.1
    rcases part with rfl | rfl | rfl
    · exact inner.1
    · exact inner.2.1
    · exact outer.2.1
  have head := marked.head x rem part
  exact {
    ring := parted.ring x rem part
    sorted := sorted
    reserved := fun q member => (marked.reserved q).trans (set.reserved q (inside q member))
    bound := fun q member => set.bound q (inside q member)
    head := by
      show (P x).type ≠ .tail
      rw [head.1]
      exact set.head
    count := head.2
    tails := marked.tails x rem part }

/-- The splits leave the free list as it is. -/
theorem Marked.freeList {s : PageMem} {P : Nat → Page} {L : Links PageNode} {f : Nat} {tl xs ms ys l : List Nat}
    (marked : Marked s P f tl xs ms ys) (parted : Parted s.link L f tl xs ms ys) (set : AllocSet s f tl)
    (free : FreeList s l) : FreeList { s with page := P, link := L } l := by
  refine ⟨free.ring.congr ?_, free.sorted, free.count, ?_, free.bound⟩
  · intro y member
    rcases List.mem_cons.mp member with rfl | inside
    · exact parted.sameFree
    · obtain ⟨q, inFree, rfl⟩ := List.mem_map.mp inside
      exact parted.same q (fun inSet => set.disjoint_free free inSet inFree)
  · intro q member
    show (P q).reserved = false
    rw [marked.reserved q]
    exact free.unreserved q member

/-- `free_pages` frees the pages of the range, as many as its unsigned int
counter says, and leaves what lies in front of and behind the range as sets of
their own. -/
theorem freePagesFrom_spec {s : PageMem} {f base : Nat} {tl l xs ms ys : List Nat} (free : FreeList s l)
    (set : AllocSet s f tl) (split : f :: tl = xs ++ (base :: ms) ++ ys) (small : s.nrPages < 2 ^ 64) :
    ∃ s' l', s.freePagesFrom base (ms.length + 1) = .ok (some (ys.headD f), s') ∧ FreeList s' l' ∧
      l'.Perm ((base :: ms).take ((ms.length + 1) % 2 ^ 32) ++ l) ∧
      Shredded s s' ((base :: ms).take ((ms.length + 1) % 2 ^ 32)) ∧ SameGeometry s s' ∧
      (∀ x rem, (xs = x :: rem ∨ ys = x :: rem) →
        AllocSet s' x rem ∧ (s'.page x).type = (s.page f).type) ∧
      (∀ q, q ∉ f :: tl → s'.page q = s.page q) ∧ ∀ q, q ∉ l → q ∉ f :: tl → s.Agree s' q := by
  have parts : Parts f tl xs base ms ys := ⟨split, sorted_nodup set.sorted⟩
  have baseIn := parts.ends_inside.1
  have length := parts.length
  have whole := set.length_le
  have enough : tl.length + 1 < s.fuel := by simp only [fuel]; omega
  have counted : (s.pageCount f + 2 ^ 65 - xs.length - (ms.length + 1)) % 2 ^ 64 % 2 ^ 32 = ys.length % 2 ^ 32 := by
    rw [set.pageCount_eq (List.mem_cons_self ..)]
    omega
  obtain ⟨P, marking, marked⟩ := updates_spec set parts counted enough
  obtain ⟨s₁, head, rest⟩ := Res.bind_eq_ok.mp marking
  obtain ⟨s₂, middle, tail⟩ := Res.bind_eq_ok.mp rest
  obtain ⟨L, splitting, parted⟩ := splits_spec (s := { s with page := P }) set.ring split
  obtain ⟨s₃, back, front⟩ := Res.bind_eq_ok.mp splitting
  have free₃ := marked.freeList parted set free
  have middleSet := marked.allocSet parted set split (.inr (.inl rfl))
  have taken : ((base :: ms).take ((ms.length + 1) % 2 ^ 32)).length = (ms.length + 1) % 2 ^ 32 := by
    rw [List.length_take, List.length_cons]
    have le := Nat.mod_le (ms.length + 1) (2 ^ 32)
    omega
  obtain ⟨s₄, l', freeing, free₄, perm, shredded, geometry, page₄, agree⟩ :=
    freeAllPages_spec free₃ middleSet (List.mem_cons_self ..)
      (List.take_append_drop ((ms.length + 1) % 2 ^ 32) (base :: ms)).symm taken
  have agree₃ : ∀ q, q ∉ f :: tl → s.Agree { s with page := P, link := L } q :=
    fun q absent => ⟨marked.same q absent, parted.same q absent, fun _ _ _ => rfl⟩
  have geometry₃ : SameGeometry s { s with page := P, link := L } := ⟨rfl, rfl⟩
  refine ⟨s₄, l', ?_, free₄, perm, ⟨shredded.junk, shredded.other⟩, geometry₃.trans geometry, ?_, ?_, ?_⟩
  · have seek : s.headLen base s.fuel (.page f) 0 = .ok xs.length := by
      have run := headLen_spec set.ring (by simpa using split : f :: tl = [] ++ xs ++ base :: (ms ++ ys))
        set.reserved parts.distinct (by omega : xs.length < s.fuel)
      have entry : (xs ++ base :: (ms ++ ys)).headD f = f := by
        rw [← List.cons_append, ← List.append_assoc, ← split]
        rfl
      rw [entry] at run
      simpa using run
    have seekLast : s.findLast f base (ms.length + 1) (.page base) = .ok (.page (ys.headD f)) := by
      refine findLast_spec set.ring split set.reserved ?_
      intro q member
      by_cases first : q = f
      · subst first
        cases xs with
        | nil => exact .inr (List.cons.inj split).1
        | cons x xs =>
          obtain ⟨rfl, -⟩ := List.cons.inj split
          exact absurd member (parts.front_not_middle (by simp))
      · exact .inl first
    simp only [freePagesFrom, set.firstPage_eq baseIn, seek, seekLast, Res.ok_bind, head, middle, tail, back, front,
      freeing]
  · intro x rem part
    have part' : xs = x :: rem ∨ base :: ms = x :: rem ∨ ys = x :: rem := part.imp_right .inr
    have inside : ∀ q ∈ x :: rem, q ∈ f :: tl ∧ q ∉ base :: ms := by
      intro q member
      rw [split]
      rcases part with rfl | rfl
      · exact ⟨by simp only [List.mem_append]; tauto, parts.front_not_middle member⟩
      · exact ⟨List.mem_append_right _ member, fun here =>
          parts.front_not_back (List.mem_append_right _ here) member⟩
    have kept : ∀ q ∈ x :: rem, PageMem.Agree { s with page := P, link := L } s₄ q :=
      fun q member => agree q (set.disjoint_free free (inside q member).1) (inside q member).2
    refine ⟨(marked.allocSet parted set split part').frame geometry kept, ?_⟩
    rw [(kept x (by simp)).page]
    exact (marked.head x rem part').1
  · intro q outSet
    have notFreed : q ∉ (base :: ms).take ((ms.length + 1) % 2 ^ 32) := fun here => outSet (by
      rw [split]
      exact List.mem_append_left _ (List.mem_append_right _ (List.mem_of_mem_take here)))
    rw [page₄ q, if_neg notFreed]
    exact marked.same q outSet
  · intro q outFree outSet
    have outMiddle : q ∉ base :: ms := fun here => outSet (by
      rw [split]
      exact List.mem_append_left _ (List.mem_append_right _ here))
    exact (agree₃ q outSet).trans geometry₃ (agree q outFree outMiddle)

end Xv6.PageMem
