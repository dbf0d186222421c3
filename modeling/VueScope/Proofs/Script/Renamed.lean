import VueScope.Proofs.Script.Renaming

/-! What a new name for a function leaves as it is: keys, the names that patterns bind, and what is made
of literals. -/
namespace VueScope.Script.Renaming

variable {names : Renaming} {role : Role} {node other : Node}

theorem Alike.stringValue? (alike : names.Alike role node other) :
    other.stringValue? = node.stringValue? := by
  unfold Node.stringValue?
  rcases alike.kind with same | ⟨kind,kind'⟩
  · rw [same]
    split
    next kind =>
      rw [Node.unquoted,alike.text (by simp [Node.isVerbatim,kind]) (by simp [kind]) (by simp [kind])
        (by simp [kind])]
      rfl
    next kind =>
      have parts := (alike.like (by simp [kind]) (by simp [kind])).parts.named
      have substituted : (other.namedChildren.any fun part => part.kind = .templateSubstitution) =
          node.namedChildren.any fun part => part.kind = .templateSubstitution := by
        generalize node.namedChildren = nodes at parts ⊢
        generalize other.namedChildren = others at parts ⊢
        induction parts with
        | nil => rfl
        | cons alike _ ih => simp [ih,alike.kind_iff .templateSubstitution]
      rw [substituted]
      split
      · rfl
      next plain =>
        rw [Node.unquoted,alike.text (by simpa [Node.isVerbatim,kind] using plain) (by simp [kind])
          (by simp [kind]) (by simp [kind])]
        rfl
    · rfl
  · rw [kind,kind']

theorem Alike.name_of_kept (alike : names.Alike role node other) (kept : role.refers = false)
    (kind : node.kind = .identifier) : other.name = node.name := by
  rcases alike.name kind with same | ⟨refers,_⟩
  · exact same
  · rw [kept] at refers
    contradiction

theorem Alike.keyName? (alike : names.Alike role node other) (kept : role.refers = false) :
    other.keyName? = node.keyName? := by
  unfold Node.keyName?
  rcases alike.kind with same | ⟨kind,kind'⟩
  · have verbatim (sure : node.isVerbatim = true) (noName : node.kind ≠ .identifier)
        (noEntry : node.kind ≠ .shorthandProperty) (noImport : node.kind ≠ .importSpecifier) :
        other.name = node.name :=
      congrArg String.ofList (alike.text sure noName noEntry noImport)
    rw [same,alike.stringValue?]
    split
    next kind => rw [verbatim] <;> simp [Node.isVerbatim,kind]
    next kind => rw [alike.name_of_kept kept kind]
    next kind => rw [verbatim] <;> simp [Node.isVerbatim,kind]
    next kind => rw [verbatim] <;> simp [Node.isVerbatim,kind]
    · rfl
    · rfl
  · rw [kind,kind']

theorem refers_inside_key (role : Role) :
    (role.inside .pair (some .key)).refers = false ∧
      (role.inside .methodDefinition (some .name)).refers = false ∧
      (role.inside .propertySignature (some .name)).refers = false ∧
      (role.inside .methodSignature (some .name)).refers = false ∧
      (role.inside .pairPattern (some .key)).refers = false := by
  cases role <;> decide

theorem Like.keyName?_child (like : names.Like role node other) {field : Field}
    (kept : (role.inside node.kind (some field)).refers = false) :
    (other.child? field).bind Node.keyName? = (node.child? field).bind Node.keyName? := by
  rcases like.parts.child? field with ⟨none,none'⟩ | ⟨part,part',found,found',alike,_⟩
  · rw [none,none']
  · rw [found,found',Option.bind_some,Option.bind_some,alike.keyName? kept]

theorem Alike.memberKey? (alike : names.Alike role node other) :
    other.memberKey? = node.memberKey? := by
  cases alike.change with
  | same like _ =>
    obtain ⟨pair,method,_⟩ := refers_inside_key role
    unfold Node.memberKey?
    rw [like.kind]
    split
    next kind => exact like.keyName?_child (by rwa [kind])
    next kind => exact like.keyName?_child (by rwa [kind])
    next kind =>
      have text := like.text
      simp only [sameText,Node.isVerbatim,kind] at text
      rw [Node.name,Node.name,show other.text = node.text by simpa using text]
    · rfl
  | expanded form =>
    have entry := expanded_of_isExpanded form
    obtain ⟨key,found,kind,name⟩ := entry.key
    simp only [Node.memberKey?,entry.kind,entry.kind',Option.mem_def.mp found,Option.bind_some,
      Node.keyName?,kind,name,entry.name]
  | renamed _ old new =>
    simp only [Node.memberKey?,old.kind,new.kind]

theorem objectKeys_eq (object : Node) :
    object.objectKeys = object.namedChildren.filterMap fun member =>
      member.memberKey?.filter (· ≠ "") := by
  unfold Node.objectKeys Node.keyedMembers
  rw [List.map_filterMap]
  congr 1
  funext member
  cases member.memberKey? with
  | none => rfl
  | some key => by_cases empty : key = "" <;> simp [empty,Option.filter]

theorem Alike.listedKeys (alike : names.Alike role node other) : other.listedKeys = node.listedKeys := by
  unfold Node.listedKeys
  rcases alike.kind with same | ⟨kind,kind'⟩
  · rw [same]
    split
    next kind =>
      have parts := (alike.like (by simp [kind]) (by simp [kind])).parts.named
      exact filterMap_eq_of_forall₂ (fun _ _ alike => alike.stringValue?) parts
    next kind =>
      have parts := (alike.like (by simp [kind]) (by simp [kind])).parts.named
      rw [objectKeys_eq,objectKeys_eq]
      exact filterMap_eq_of_forall₂ (fun _ _ alike => by rw [alike.memberKey?]) parts
    · rfl
  · rw [kind,kind']

theorem Like.binderParts (like : names.Like role node other) :
    List.Forall₂ (fun part part' => part ∈ node.binderParts ∧
      names.Alike (role.inside node.kind part.field) part part') node.binderParts other.binderParts := by
  have one (field : Field) : List.Forall₂ (fun part part' =>
      names.Alike (role.inside node.kind part.field) part part') (node.child? field).toList
        (other.child? field).toList := by
    rcases like.parts.child? field with ⟨none,none'⟩ | ⟨part,part',found,found',alike,_⟩
    · simp [none,none']
    · have plays : part.field = some field := by simpa using List.find?_some found
      simpa [found,found',plays] using alike
  refine (List.forall₂_and_left _ _).mpr ⟨fun _ => id,?_⟩
  unfold Node.binderParts
  rw [like.kind]
  split
  case h_8 =>
    split
    · exact .nil
    · exact like.parts.named
  all_goals first
    | exact .nil
    | exact one _

theorem kept_inside (kept : role = .pattern ∨ role = .fixed) {part : Node} (inside : part ∈ node.binderParts) :
    role.inside node.kind part.field = .pattern ∨ role.inside node.kind part.field = .fixed := by
  have plays {field : Field} (found : part ∈ (node.child? field).toList) : part.field = some field := by
    simpa using List.find?_some (Option.mem_toList.mp found)
  rcases kept with rfl | rfl
  · unfold Role.inside Role.inPattern
    unfold Node.binderParts at inside
    split at inside
    case h_8 =>
      left
      split <;> simp_all
    all_goals first
      | contradiction
      | next kind => simp [kind,plays inside]
  · exact .inr rfl

theorem Alike.boundNames (alike : names.Alike role node other) (kept : role = .pattern ∨ role = .fixed) :
    other.boundNames = node.boundNames := by
  induction node using Node.byParts generalizing role other with
  | step node ih =>
    have refers : role.refers = false := by rcases kept with rfl | rfl <;> rfl
    have like : names.Like role node other := by
      cases alike.change with
      | same like _ => exact like
      | expanded form => simp [(expanded_of_isExpanded form).refers] at refers
      | renamed isImport _ _ => simp [isImport] at kept
    unfold Node.boundNames
    rw [Node.boundIdentifiers_eq,Node.boundIdentifiers_eq,like.kind]
    split
    next isName =>
      rcases isName with kind | kind
      · simp [alike.name_of_kept refers kind]
      · have text := alike.text (by simp [Node.isVerbatim,kind]) (by simp [kind]) (by simp [kind])
          (by simp [kind])
        simp [Node.name,text]
    next =>
      rw [List.map_flatMap,List.map_flatMap]
      refine flatMap_eq_of_forall₂ (fun part part' both => ?_) like.binderParts
      exact ih part (node.binderParts_sublist.subset both.1) both.2 (kept_inside kept both.1)

theorem Alike.likeStatic (alike : names.Alike role node other) : node.LikeStatic other := by
  induction node using Node.byParts generalizing role other with
  | step node ih =>
    refine ⟨alike.field,alike.test Kind.isNamed rfl,
      alike.kind_iff .templateSubstitution (by decide) (by decide),?_,?_⟩
    · cases alike.change with
      | same like _ =>
        exact Node.isStatic_of_forall₂ like.kind
          (like.parts.member.imp fun part _ both => ih part both.1 both.2)
      | expanded form =>
        have entry := expanded_of_isExpanded form
        rw [Node.isStatic_eq,Node.isStatic_eq,entry.kind,entry.kind']
        rfl
      | renamed _ old new =>
            rw [Node.isStatic_eq,Node.isStatic_eq,old.kind,new.kind]
    · intro kind
      have like := alike.like (by simp [kind]) (by simp [kind])
      exact Node.firstStatic_eq (like.parts.member.imp fun part _ both => ih part both.1 both.2)

end VueScope.Script.Renaming
