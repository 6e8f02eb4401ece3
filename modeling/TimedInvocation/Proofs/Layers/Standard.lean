import TimedInvocation.Proofs.Layers.Settings

/-!
# The standard library obeys the laws

Setting a path changes a value only where the path leads: what is reached by names that part from it is as
it was, and the same steps lead to what was set. So the library whose documents, paths and tables are those
defined here is lawful.
-/

namespace TimedInvocation.Layers

/-- The text at the end of a way. -/
def Node.textAt (node : Node) (way : List PathStep) : Option String :=
  (node.follow? way).bind Node.text?

namespace Node

variable {f g change : Node → Node} {node member value : Node} {name other s t text : String}
  {steps steps' rest : List PathStep}

@[simp]
theorem member?_withMember_self : (node.withMember name member).member? name = some member := by
  simp [withMember, member?, members, putMember_eq_put, Keyed.lookup_put]

theorem member?_withMember_of_ne (hne : other ≠ name) :
    (node.withMember name member).member? other = node.member? other := by
  simp [withMember, member?, members, putMember_eq_put, Keyed.lookup_put, hne]

@[simp]
theorem withMember_withMember (inner : Node) :
    (node.withMember name inner).withMember name member = node.withMember name member := by
  simp [withMember, members, putMember_eq_put, Keyed.put_put]

/-- The place of an index in a list that has room for it. -/
theorem place_of_fits {i : Int} {length : Nat} (hfits : i < length ∧ -i ≤ length) :
    place i length = .inl (if 0 ≤ i then i.toNat else length - (-i).toNat) := by
  unfold place
  split
  · rfl
  · rw [if_pos (by omega)]

/-- Room is made once: what is changed in place has it, and the index keeps its place. -/
theorem withRoom_list (i : Int) :
    ∀ changed : List Node, changed.length = (node.withRoom i).1.length →
      (list changed).withRoom i = (changed, (node.withRoom i).2) := by
  intro changed hlength
  have hroom : i < (changed.length : Int) ∧ -i ≤ (changed.length : Int) ∧
      (node.withRoom i).2 = if 0 ≤ i then i.toNat else changed.length - (-i).toNat := by
    rw [hlength]
    unfold withRoom place
    by_cases hpos : 0 ≤ i
    · simp [hpos]
      omega
    · by_cases hlong : (-i).toNat ≤ node.items.length
      · simp [hpos, hlong]
        omega
      · simp [hpos, hlong]
        omega
  rw [hroom.2.2]
  unfold withRoom
  rw [items, place_of_fits ⟨hroom.1, hroom.2.1⟩]
  have hplace : (if 0 ≤ i then i.toNat else changed.length - (-i).toNat) + 1 - changed.length = 0 := by
    split <;> omega
  simp [hplace]

theorem alter_append : alter f (steps ++ steps') node = alter (alter f steps') steps node := by
  induction steps generalizing node with
  | nil => rfl
  | cons step steps ih =>
      have hinner : alter f (steps ++ steps') = alter (alter f steps') steps := funext fun _ => ih
      cases step <;> simp [alter, hinner]

/-- Two changes at the same steps are one. -/
theorem alter_alter : alter g steps (alter f steps node) = alter (fun old => g (f old)) steps node := by
  induction steps generalizing node with
  | nil => rfl
  | cons step steps ih =>
      have hinner : alter g steps ∘ alter f steps = alter (fun old => g (f old)) steps := funext fun _ => ih
      cases step with
      | name s => simp [alter, ih]
      | index i =>
          simp only [alter]
          rw [withRoom_list i _ (List.length_modify ..)]
          simp [List.modify_modify_eq, hinner]

@[simp]
theorem textAt_absent (way : List PathStep) : absent.textAt way = none := by
  cases way with
  | nil => rfl
  | cons step rest =>
      cases step with
      | name s => rfl
      | index i =>
          have hitem : absent.item? i = none := by
            unfold item?
            split <;> rfl
          simp [textAt, follow?, hitem]

theorem textAt_name : node.textAt (.name s :: rest) = ((node.member? s).getD absent).textAt rest := by
  cases hmember : node.member? s with
  | none => rw [Option.getD_none, textAt_absent, textAt, follow?, hmember]; rfl
  | some member => rw [textAt, follow?, hmember]; rfl

theorem textAt_alter_name (steps : List PathStep) :
    (alter change (.name s :: steps) node).textAt (.name s :: rest) =
      (alter change steps ((node.member? s).getD absent)).textAt rest := by
  rw [textAt_name, alter, member?_withMember_self, Option.getD_some]

theorem textAt_alter_of_ne (hne : t ≠ s) (steps : List PathStep) :
    (alter change (.name s :: steps) node).textAt (.name t :: rest) = node.textAt (.name t :: rest) := by
  rw [textAt_name, alter, member?_withMember_of_ne hne, ← textAt_name]

/-- A change at the end of some names touches no text at the end of names that part from them. -/
theorem textAt_alter_of_parted {names others : List String} {node : Node}
    (hparted : Parted (names.map .name) (others.map .name)) :
    (alter change (names.map .name) node).textAt (others.map .name) = node.textAt (others.map .name) := by
  induction names generalizing others node with
  | nil => exact absurd List.nil_prefix hparted.1
  | cons s names ih =>
      cases others with
      | nil => exact absurd List.nil_prefix hparted.2
      | cons t others =>
          rw [List.map_cons, List.map_cons]
          by_cases hsame : t = s
          · subst hsame
            rw [textAt_alter_name, textAt_name]
            refine ih ⟨fun hprefix => hparted.1 ?_, fun hprefix => hparted.2 ?_⟩
            · exact List.cons_prefix_cons.mpr ⟨rfl, hprefix⟩
            · exact List.cons_prefix_cons.mpr ⟨rfl, hprefix⟩
          · exact textAt_alter_of_ne hsame _

/-- A change leaves the texts below its place alone if it leaves them alone there. -/
theorem textAt_alter_of_below {names : List String} {rest : List PathStep} {node : Node}
    (hbelow : ∀ old, (change old).textAt rest = old.textAt rest) :
    (alter change (names.map .name) node).textAt (names.map .name ++ rest) =
      node.textAt (names.map .name ++ rest) := by
  induction names generalizing node with
  | nil => exact hbelow node
  | cons s names ih => rw [List.map_cons, List.cons_append, textAt_alter_name, textAt_name, ih]

/-- A change that makes a text of anything makes it at its place. -/
theorem textAt_alter_self {names : List String} {node : Node}
    (hchange : ∀ old, (change old).text? = some text) :
    (alter change (names.map .name) node).textAt (names.map .name) = some text := by
  induction names generalizing node with
  | nil => exact hchange node
  | cons s names ih => rw [List.map_cons, textAt_alter_name, ih]

/-- A value with a text replaces whatever it is merged into. -/
theorem merge_of_text (htext : value.text? = some text) (old : Node) : merge old value = value := by
  cases value <;> first | rfl | cases htext

/-- An empty table leaves what is below the place that it is merged into. -/
theorem textAt_merge_empty (old : Node) (s : String) (rest : List PathStep) :
    (merge old (table [])).textAt (.name s :: rest) = old.textAt (.name s :: rest) := by
  rw [textAt_name, textAt_name, merge, mergeMembers]
  rfl

/-- The first member makes a table of whatever is no table. -/
theorem mergeMembers_of_members (old : Node) (member : String × Node) (rest : List (String × Node)) :
    mergeMembers (table old.members) (member :: rest) = mergeMembers old (member :: rest) := by
  simp only [mergeMembers]
  rfl

/-- Merging members is setting them one after the other. -/
theorem alter_mergeMembers {steps : List PathStep} (node : Node) {members : List (String × Node)}
    (hsome : members ≠ []) :
    alter (fun old => mergeMembers old members) steps node = members.foldl
      (fun node (name, value) => alter (fun old => merge old value) (steps ++ [.name name]) node) node := by
  induction members generalizing node with
  | nil => exact absurd rfl hsome
  | cons member rest ih =>
      obtain ⟨name, value⟩ := member
      have hfirst : alter (fun old => old.withMember name (merge ((old.member? name).getD absent) value))
          steps node = alter (fun old => merge old value) (steps ++ [.name name]) node := by
        rw [alter_append]
        rfl
      cases rest with
      | nil => exact hfirst
      | cons next rest =>
          have hrest := ih (alter (fun old => merge old value) (steps ++ [.name name]) node)
            (List.cons_ne_nil next rest)
          rw [← hfirst, alter_alter] at hrest
          exact hrest.trans (by rw [hfirst]; rfl)

end Node

theorem DottedName.lookup?_text (p : DottedName) (node : Node) :
    node.lookup? p.text = node.textAt p.way := by
  rw [Node.lookup?, read?_text]
  rfl

/-- Documents, paths and tables as they are defined here obey the laws. -/
theorem Library.standard_lawful : standard.Lawful where
  path?_eq p key := p.read?_eq_path
  put_table node path members hsome := by
    cases members with
    | nil => exact absurd rfl hsome
    | cons member rest =>
        have hmerge (old : Node) :
            Node.merge old (.table (member :: rest)) = Node.mergeMembers old (member :: rest) :=
          Node.mergeMembers_of_members old member rest
        have hset : Node.set node path (.table (member :: rest)) =
            Node.alter (fun old => Node.mergeMembers old (member :: rest)) path.way node := by
          simp only [Node.set, hmerge]
          rfl
        exact hset.trans (Node.alter_mergeMembers node hsome)
  put_empty p node path hbefore hne := by
    obtain ⟨rest, hrest⟩ := hbefore
    obtain ⟨names, others, -, hway, rfl⟩ := List.map_eq_append_iff.mp hrest.symm
    change (Node.alter _ path.way node).lookup? p.text = node.lookup? p.text
    rw [p.lookup?_text, p.lookup?_text, ← hrest, ← hway]
    cases others with
    | nil => exact absurd (by simpa using hrest) hne
    | cons s others => exact Node.textAt_alter_of_below fun old => Node.textAt_merge_empty old s _
  put_parted p node value root names hparted := by
    change (Node.alter _ ((root :: names).map .name) node).lookup? p.text = node.lookup? p.text
    rw [p.lookup?_text, p.lookup?_text]
    exact Node.textAt_alter_of_parted hparted
  put_text p node value text htext := by
    change (Node.alter _ p.way node).lookup? p.text = some text
    rw [p.lookup?_text]
    refine Node.textAt_alter_self fun old => ?_
    rw [Node.merge_of_text htext, htext]
  text?_empty p := p.lookup?_text (.table [])

end TimedInvocation.Layers
