import Mathlib.Data.List.Basic

/-!
# Lexical path names

Paths are words over an alphabet with a separator and a dot. `clean` removes empty components, `.`
and `..`, `join` puts components together and cleans what comes out, and `render` writes the
components of a rooted path out.
-/

namespace ContainerRegistry.Library.CleanPaths

open List

variable {α : Type} [DecidableEq α] (sep dot : α)

def render (components : List (List α)) : List α := sep :: [sep].intercalate components

/-- One more component: empty ones and `.` are dropped, and `..` takes the last one away. What
cannot be taken away of a rooted path is dropped as well. -/
def cleanStep (rooted : Bool) (out : List (List α)) (c : List α) : List (List α) :=
  if c = [] ∨ c = [dot] then out
  else if c = [dot, dot] then
    if out ≠ [] ∧ out.getLast? ≠ some [dot, dot] then out.dropLast
    else if rooted then out else out ++ [c]
  else out ++ [c]

def clean (path : List α) : List α :=
  if path = [] then [dot]
  else
    let rooted := path.head? = some sep
    let out := (path.splitOn sep).foldl (cleanStep dot rooted) []
    if rooted then render sep out
    else if out = [] then [dot] else [sep].intercalate out

def join (elements : List (List α)) : List α :=
  match elements.dropWhile (·.isEmpty) with
  | [] => []
  | elements => clean sep dot ([sep].intercalate elements)

/-! ## Components that need no cleaning -/

/-- The component is neither empty nor `.` nor `..`, and has no separator in it. -/
structure Proper (c : List α) : Prop where
  nonempty : c ≠ []
  not_dot : c ≠ [dot]
  not_dots : c ≠ [dot, dot]
  no_sep : sep ∉ c

instance (c : List α) : Decidable (Proper sep dot c) :=
  decidable_of_iff (c ≠ [] ∧ c ≠ [dot] ∧ c ≠ [dot, dot] ∧ sep ∉ c)
    ⟨fun h => ⟨h.1, h.2.1, h.2.2.1, h.2.2.2⟩, fun h => ⟨h.1, h.2, h.3, h.4⟩⟩

variable {sep dot}

variable {c : List α}

theorem cleanStep_of_proper (h : Proper sep dot c) (rooted : Bool) (out : List (List α)) :
    cleanStep dot rooted out c = out ++ [c] := by
  unfold cleanStep
  rw [if_neg (not_or.2 ⟨h.nonempty, h.not_dot⟩), if_neg h.not_dots]

theorem foldl_cleanStep_of_proper {l} (h : ∀ c ∈ l, Proper sep dot c)
    (rooted : Bool) (out : List (List α)) : l.foldl (cleanStep dot rooted) out = out ++ l := by
  induction l generalizing out with
  | nil => simp
  | cons c cs ih =>
    rw [foldl_cons, cleanStep_of_proper (h c mem_cons_self),
      ih fun x hx => h x (mem_cons_of_mem _ hx)]
    simp

/-! ## Rooted paths -/

/-- The components that joining `elements` to a rooted path with components `out` gives. -/
def extend (sep dot : α) (out elements : List (List α)) : List (List α) :=
  (elements.flatMap (·.splitOn sep)).foldl (cleanStep dot true) out

theorem extend_nil (out : List (List α)) : extend sep dot out [] = out := rfl

theorem extend_cons (out : List (List α)) (e : List α) (es : List (List α)) :
    extend sep dot out (e :: es) =
      extend sep dot ((e.splitOn sep).foldl (cleanStep dot true) out) es := by
  simp [extend, foldl_append]

theorem extend_proper (h : Proper sep dot c) (out es : List (List α)) :
    extend sep dot out (c :: es) = extend sep dot (out ++ [c]) es := by
  rw [extend_cons, splitOn_eq_singleton h.no_sep, foldl_cons, foldl_nil, cleanStep_of_proper h]

theorem extend_path {e} (h : ∀ c ∈ e.splitOn sep, Proper sep dot c) (out es : List (List α)) :
    extend sep dot out (e :: es) = extend sep dot (out ++ e.splitOn sep) es := by
  rw [extend_cons, foldl_cleanStep_of_proper h]

theorem extend_empty (out es : List (List α)) :
    extend sep dot out ([] :: es) = extend sep dot out es := by
  rw [extend_cons]
  rfl

theorem extend_dot (hne : dot ≠ sep) (out es : List (List α)) :
    extend sep dot out ([dot] :: es) = extend sep dot out es := by
  rw [extend_cons, splitOn_eq_singleton (by simpa using hne.symm)]
  simp [cleanStep]

theorem extend_dots (hne : dot ≠ sep) (hc : Proper sep dot c) (out es : List (List α)) :
    extend sep dot (out ++ [c]) ([dot, dot] :: es) = extend sep dot out es := by
  rw [extend_cons, splitOn_eq_singleton (by simpa using hne.symm)]
  simp [cleanStep, hc.not_dots]

theorem splitOn_intercalate_cons (e : List α) (es : List (List α)) :
    ([sep].intercalate (e :: es)).splitOn sep = (e :: es).flatMap (·.splitOn sep) := by
  induction es generalizing e with
  | nil => simp [List.intercalate]
  | cons e' es ih =>
    have hcons : [sep].intercalate (e :: e' :: es) = e ++ sep :: [sep].intercalate (e' :: es) := by
      simp [List.intercalate, List.intersperse]
    rw [hcons, splitOn_append_cons_self, ih, flatMap_cons (x := e)]

/-- **Joining elements to the first one, which is rooted.** -/
theorem join_rooted (root : List α) (es : List (List α)) :
    join sep dot ((sep :: root) :: es) = render sep (extend sep dot [] ((sep :: root) :: es)) := by
  have hhead : ([sep].intercalate ((sep :: root) :: es)).head? = some sep := by
    cases es with
    | nil => simp [List.intercalate]
    | cons e es => simp [List.intercalate, List.intersperse]
  have hne : [sep].intercalate ((sep :: root) :: es) ≠ [] := by
    intro h
    rw [h] at hhead
    cases hhead
  unfold join
  rw [dropWhile_cons_of_neg (by simp)]
  simp only [clean, if_neg hne, hhead, decide_true, if_true]
  rw [splitOn_intercalate_cons]
  rfl

variable {cs : List (List α)}

theorem splitOn_render (hne : cs ≠ []) (h : ∀ c ∈ cs, Proper sep dot c) :
    (render sep cs).splitOn sep = [] :: cs := by
  have hsplit : (render sep cs).splitOn sep = [].splitOn sep ++
    ([sep].intercalate cs).splitOn sep :=
    splitOn_append_cons_self [] _
  rw [hsplit, splitOn_intercalate sep (fun c hc => (h c hc).no_sep) hne]
  rfl

/-- A path of proper components is clean. -/
theorem clean_of_proper {path} (h : ∀ c ∈ path.splitOn sep, Proper sep dot c) :
    clean sep dot path = path := by
  obtain ⟨c, cs, hsplit⟩ := exists_cons_of_ne_nil (splitOn_ne_nil sep path)
  have hpath : [sep].intercalate (path.splitOn sep) = path := intercalate_splitOn sep
  rw [hsplit] at hpath h
  obtain ⟨x, t, rfl⟩ := exists_cons_of_ne_nil (h c mem_cons_self).nonempty
  have hhead : path.head? = some x := by
    rw [← hpath]
    cases cs with
    | nil => simp [List.intercalate]
    | cons e es => simp [List.intercalate, List.intersperse]
  have hne : path ≠ [] := by
    rintro rfl
    cases hhead
  have hx : x ≠ sep := by
    rintro rfl
    exact (h _ mem_cons_self).no_sep mem_cons_self
  simp only [clean, if_neg hne, hhead, Option.some.injEq, hx, decide_false, if_false]
  rw [hsplit, foldl_cleanStep_of_proper h]
  simpa using hpath

/-- Proper components are joined as they are. -/
theorem join_of_proper (h : ∀ x ∈ c :: cs, Proper sep dot x) :
    join sep dot (c :: cs) = [sep].intercalate (c :: cs) := by
  have hsplit : ([sep].intercalate (c :: cs)).splitOn sep = c :: cs :=
    splitOn_intercalate sep (fun x hx => (h x hx).no_sep) (by simp)
  unfold join
  rw [dropWhile_cons_of_neg (by simpa using (h c mem_cons_self).nonempty)]
  refine clean_of_proper fun x hx => h x ?_
  rwa [hsplit] at hx

/-- **Joining elements to a rooted path that is clean already.** -/
theorem join_render (hne : cs ≠ []) (h : ∀ c ∈ cs, Proper sep dot c) (es : List (List α)) :
    join sep dot (render sep cs :: es) = render sep (extend sep dot cs es) := by
  have hroot : join sep dot (render sep cs :: es) =
      render sep (extend sep dot [] (render sep cs :: es)) := join_rooted _ es
  have hempty : cleanStep dot true [] ([] : List α) = [] := by simp [cleanStep]
  rw [hroot, extend_cons, splitOn_render hne h, foldl_cons, hempty,
    foldl_cleanStep_of_proper h, nil_append]

variable {a b : List (List α)}

/-- **A rooted path determines its components.** -/
theorem render_injective (ha : a ≠ []) (hb : b ≠ []) (hpa : ∀ c ∈ a, Proper sep dot c)
    (hpb : ∀ c ∈ b, Proper sep dot c) (h : render sep a = render sep b) : a = b := by
  have hsplit := splitOn_render ha hpa
  rw [h, splitOn_render hb hpb] at hsplit
  exact (List.cons.inj hsplit).2.symm

def Inside (sep : α) (dir path : List α) : Prop := path = dir ∨ dir ++ [sep] <+: path

theorem prefix_of_inside (ha : a ≠ []) (hb : b ≠ []) (hpa : ∀ c ∈ a, Proper sep dot c)
    (hpb : ∀ c ∈ b, Proper sep dot c) (h : Inside sep (render sep a) (render sep b)) : a <+: b := by
  rcases h with h | ⟨rest, hrest⟩
  · exact render_injective hb ha hpb hpa h ▸ prefix_rfl
  · have hsplit := splitOn_render hb hpb
    rw [← hrest, append_assoc, singleton_append, splitOn_append_cons_self,
      splitOn_render ha hpa, cons_append] at hsplit
    exact ⟨rest.splitOn sep, (List.cons.inj hsplit).2⟩

omit [DecidableEq α] in
/-- Components are joined in two parts. -/
theorem intercalate_append (ha : a ≠ []) (hb : b ≠ []) :
    [sep].intercalate (a ++ b) = [sep].intercalate a ++ sep :: [sep].intercalate b := by
  induction a with
  | nil => exact (ha rfl).elim
  | cons c cs ih =>
    cases cs with
    | nil =>
      obtain ⟨d, ds, rfl⟩ := exists_cons_of_ne_nil hb
      simp
    | cons c' cs =>
      have htail := ih (cons_ne_nil c' cs)
      simp only [cons_append] at htail ⊢
      rw [intercalate_cons_cons, htail, intercalate_cons_cons]
      simp

omit [DecidableEq α] in
/-- A prefix of components contains. -/
theorem inside_of_prefix (ha : a ≠ []) (h : a <+: b) :
    Inside sep (render sep a) (render sep b) := by
  obtain ⟨t, rfl⟩ := h
  cases t with
  | nil => exact .inl (by rw [append_nil])
  | cons c cs =>
    refine .inr ⟨[sep].intercalate (c :: cs), ?_⟩
    simp only [render, intercalate_append ha (cons_ne_nil c cs), cons_append,
      append_assoc, nil_append]

/-- A path is inside another by its components. -/
theorem inside_iff_splitOn {p q} : Inside sep p q ↔ p.splitOn sep <+: q.splitOn sep := by
  have hne : ∀ x : List α, x.splitOn sep ≠ [] := splitOn_ne_nil sep
  constructor
  · rintro (rfl | ⟨rest, rfl⟩)
    · exact prefix_rfl
    · rw [append_assoc, singleton_append, splitOn_append_cons_self]
      exact prefix_append _ _
  · rintro ⟨t, ht⟩
    have hq : [sep].intercalate (q.splitOn sep) = q := intercalate_splitOn sep
    rw [← ht] at hq
    cases t with
    | nil =>
      rw [append_nil, intercalate_splitOn] at hq
      exact .inl hq.symm
    | cons c cs =>
      rw [intercalate_append (hne p) (cons_ne_nil c cs), intercalate_splitOn] at hq
      refine .inr ⟨[sep].intercalate (c :: cs), ?_⟩
      rw [← hq, append_assoc, singleton_append]

end ContainerRegistry.Library.CleanPaths
