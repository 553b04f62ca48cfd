/-
Ckbadger.Store.TokenMetadata — a token's stored row and the one rule that decides which
source writes its name, symbol and decimals.

A curated label writes the three fields and says so. The token's own Unique Cell is merged
by how it was bound: an extension binding replaces every field the chain asserts, a
co-occurrence binding fills gaps only. `metadata_precedence` says what any sequence of
labels and observations leaves in a row.
-/
import Mathlib.Data.List.Induction
import Ckbadger.Lib.Text

namespace Ckbadger.Store

open Lib

/-- Which source wrote a token's stored name, symbol and decimals. -/
inductive TokenMetadataSource where
  | label
  | chain
  deriving DecidableEq

/-- How a Unique Cell was bound to a token. -/
inductive OnchainInfoBinding where
  /-- The xUDT's extension script points at the Unique Cell. -/
  | xudtExtension
  /-- The Unique Cell was created in the token's single-type issuance. -/
  | issuanceCooccurrence
  deriving DecidableEq

/-- A token's bound Unique Cell values; an empty name or symbol asserts nothing. -/
structure ChainTokenMetadata where
  name : Option String
  symbol : Option String
  decimals : UInt8
  binding : OnchainInfoBinding
  deriving DecidableEq

structure TokenInfo where
  typeCodeHash : Bytes
  hashType : UInt8
  typeArgs : Bytes
  standard : String
  name : Option String := none
  symbol : Option String := none
  decimals : Option Int := none
  maxSupply : Option Nat := none
  firstSeenBlock : Int
  iconUrl : Option String := none
  description : Option String := none
  transfersCount : Int := 0
  metadataSource : Option TokenMetadataSource := none
  chainMetadata : Option ChainTokenMetadata := none
  deriving DecidableEq

namespace TokenInfo

/-- A curated label writes the three fields. -/
def applyLabel (info : TokenInfo) (name symbol : String) (decimals : Int) : TokenInfo :=
  { info with
    name := some name
    symbol := some symbol
    decimals := some decimals
    metadataSource := some .label }

/-- An extension binding: the association is cryptographic, so every field the chain asserts
replaces the stored one. A label's field survives where the chain left it empty. -/
def mergeExtension (info : TokenInfo) (chain : ChainTokenMetadata) : TokenInfo :=
  let labelFieldSurvives := info.metadataSource = some .label ∧
    ((chain.name.isNone ∧ info.name.isSome) ∨ (chain.symbol.isNone ∧ info.symbol.isSome))
  { info with
    name := chain.name.or info.name
    symbol := chain.symbol.or info.symbol
    decimals := some chain.decimals.toNat
    metadataSource := some (if labelFieldSurvives then .label else .chain)
    chainMetadata := some chain }

/-- A co-occurrence binding: a heuristic, which fills gaps only. -/
def mergeCooccurrence (info : TokenInfo) (chain : ChainTokenMetadata) : TokenInfo :=
  let filled := (info.name.isNone ∧ chain.name.isSome) ∨
    (info.symbol.isNone ∧ chain.symbol.isSome) ∨ info.decimals.isNone
  { info with
    name := info.name.or chain.name
    symbol := info.symbol.or chain.symbol
    decimals := info.decimals.or (some chain.decimals.toNat)
    metadataSource :=
      if filled ∧ info.metadataSource.isNone then some .chain else info.metadataSource
    chainMetadata := info.chainMetadata.or (some chain) }

/-- Merges a bound Unique Cell into the stored row, by its binding. -/
def mergeChainMetadata (info : TokenInfo) (chain : ChainTokenMetadata) : TokenInfo :=
  match chain.binding with
  | .xudtExtension => info.mergeExtension chain
  | .issuanceCooccurrence => info.mergeCooccurrence chain

/-- The stored source, checked against the stored fields: a row with a name, symbol or decimals
has a source, and a row with none has none. -/
def checkedMetadataSource (info : TokenInfo) : Except String (Option TokenMetadataSource) :=
  let hasFields := info.name.isSome || info.symbol.isSome || info.decimals.isSome
  let row := "token row (type args 0x" ++ String.ofList (hexEncode info.typeArgs) ++ ")"
  match info.metadataSource, hasFields with
  | some source, true => .ok (some source)
  | none, false => .ok none
  | none, true => .error (row ++ " has name/symbol/decimals but no metadata source")
  | some source, false => .error (row ++ " has metadata source " ++
      (match source with | .label => "Label" | .chain => "Chain") ++
      " but no name, symbol or decimals")

end TokenInfo

/-! ## Sequences of labels and observations -/

/-- What writes a token's metadata: label import, or the sync writers for a bound Unique Cell. -/
inductive MetadataEvent where
  | label (name symbol : String) (decimals : Int)
  | observed (chain : ChainTokenMetadata)
  deriving DecidableEq

namespace MetadataEvent

def apply (info : TokenInfo) : MetadataEvent → TokenInfo
  | .label name symbol decimals => info.applyLabel name symbol decimals
  | .observed chain => info.mergeChainMetadata chain

/-- What an event replaces a field by: a label every field by its own value, an extension binding
by what `read` finds in the observation. -/
def replaces {α : Type} (labelled : String → String → Int → Option α)
    (read : ChainTokenMetadata → Option α) : MetadataEvent → Option α
  | .label name symbol decimals => labelled name symbol decimals
  | .observed chain => if chain.binding = .xudtExtension then read chain else none

/-- What an event fills a gap by: a co-occurrence binding's value. -/
def fills {α : Type} (read : ChainTokenMetadata → Option α) : MetadataEvent → Option α
  | .label .. => none
  | .observed chain => if chain.binding = .issuanceCooccurrence then read chain else none

/-- The value a sequence of events leaves in a field that held `stored`: the last replacement, else
the stored value, else the first filling. -/
def settled {α : Type} (labelled : String → String → Int → Option α)
    (read : ChainTokenMetadata → Option α) (stored : Option α) (events : List MetadataEvent) :
    Option α :=
  (events.reverse.findSome? (replaces labelled read)).or (stored.or (events.findSome? (fills read)))

def isLabel : MetadataEvent → Bool
  | .label .. => true
  | .observed _ => false

/-- An extension binding that asserts both a name and a symbol leaves nothing of a label. -/
def keepsLabel : MetadataEvent → Bool
  | .label .. => true
  | .observed chain =>
    chain.binding == .issuanceCooccurrence || chain.name.isNone || chain.symbol.isNone

/-- Some label was written, and no later event displaced it. -/
def labelStands : List MetadataEvent → Bool
  | [] => false
  | event :: events => event.isLabel && events.all keepsLabel || labelStands events

variable {α : Type} {labelled : String → String → Int → Option α}
  {read : ChainTokenMetadata → Option α}

/-- A field that each event replaces, keeps or fills holds what `settled` says. -/
theorem foldl_apply_eq_settled {field : TokenInfo → Option α}
    (hstep : ∀ (info : TokenInfo) (event : MetadataEvent), field (event.apply info) =
      (event.replaces labelled read).or ((field info).or (event.fills read)))
    (info : TokenInfo) (events : List MetadataEvent) :
    field (events.foldl apply info) = settled labelled read (field info) events := by
  induction events generalizing info with
  | nil => simp [settled]
  | cons event events ih =>
    simp only [List.foldl_cons, ih, hstep, settled, List.reverse_cons, List.findSome?_append,
      List.findSome?_cons, List.findSome?_nil]
    cases event.replaces labelled read <;> cases field info <;> cases event.fills read <;> simp

theorem labelStands_concat (events : List MetadataEvent) (event : MetadataEvent) :
    labelStands (events ++ [event]) =
      (event.isLabel || labelStands events && event.keepsLabel) := by
  induction events with
  | nil => simp [labelStands]
  | cons first events ih =>
    cases event <;>
      simp [labelStands, ih, isLabel, keepsLabel, Bool.and_or_distrib_right, Bool.and_assoc]

end MetadataEvent

namespace TokenInfo

variable {info : TokenInfo} {source : Option TokenMetadataSource}

theorem checkedMetadataSource_eq_ok :
    info.checkedMetadataSource = .ok source ↔ info.metadataSource = source ∧
      source.isSome = (info.name.isSome || info.symbol.isSome || info.decimals.isSome) := by
  unfold checkedMetadataSource
  cases info.metadataSource <;>
    cases info.name.isSome || info.symbol.isSome || info.decimals.isSome <;>
    cases source <;> simp

open MetadataEvent

/-- What one event does to the source of a row whose source agrees with its fields, where a label's
row has both texts. -/
theorem checkedMetadataSource_apply (hsource : info.checkedMetadataSource = .ok source)
    (htexts : source = some .label → info.name.isSome ∧ info.symbol.isSome)
    (event : MetadataEvent) :
    (event.apply info).checkedMetadataSource = .ok (some (
      if event.isLabel ∨ source = some .label ∧ event.keepsLabel then .label else .chain)) ∧
    (source = some .label ∨ event.isLabel → (event.apply info).name.isSome ∧
      (event.apply info).symbol.isSome) := by
  obtain ⟨rfl, hfields⟩ := checkedMetadataSource_eq_ok.mp hsource
  rw [checkedMetadataSource_eq_ok]
  cases event with
  | label name symbol decimals => simp [apply, applyLabel, isLabel]
  | observed chain =>
    cases hbinding : chain.binding with
    | xudtExtension =>
      simp only [apply, mergeChainMetadata, hbinding, mergeExtension, keepsLabel, isLabel]
      cases chain.name <;> cases chain.symbol <;> grind
    | issuanceCooccurrence =>
      -- Without a source the row has no decimals, so the observation fills them.
      simp only [apply, mergeChainMetadata, hbinding, mergeCooccurrence, keepsLabel, isLabel]
      cases hstored : info.metadataSource with
      | none => simp_all
      | some stored => cases stored <;> simp_all

/-- The source that a sequence of events leaves in a row no label wrote. -/
theorem checkedMetadataSource_foldl (hsource : info.checkedMetadataSource = .ok source)
    (hlabel : source ≠ some .label) (events : List MetadataEvent) :
    (events.foldl apply info).checkedMetadataSource =
        .ok (if labelStands events then some .label
          else if events = [] then source else some .chain) ∧
      (labelStands events → (events.foldl apply info).name.isSome ∧
        (events.foldl apply info).symbol.isSome) := by
  induction events using List.reverseRecOn with
  | nil => simpa [labelStands] using hsource
  | append_singleton events event ih =>
    have hstands : (if labelStands events then some .label
        else if events = [] then source else some .chain) = some TokenMetadataSource.label ↔
        labelStands events := by grind
    obtain ⟨hrow, htexts⟩ := checkedMetadataSource_apply ih.1 (hstands.mp · |> ih.2) event
    simp only [List.foldl_append, List.foldl_cons, List.foldl_nil, labelStands_concat, hrow, hstands,
      Bool.or_eq_true, Bool.and_eq_true, List.append_eq_nil_iff, List.cons_ne_nil, and_false,
      if_false, apply_ite some] at htexts ⊢
    exact ⟨trivial, fun h => htexts (h.symm.imp_left And.left)⟩

/-- Events write the five metadata fields and no other. -/
theorem foldl_apply_frame (info : TokenInfo) (events : List MetadataEvent) :
    events.foldl apply info = { info with
      name := (events.foldl apply info).name
      symbol := (events.foldl apply info).symbol
      decimals := (events.foldl apply info).decimals
      metadataSource := (events.foldl apply info).metadataSource
      chainMetadata := (events.foldl apply info).chainMetadata } := by
  induction events generalizing info with
  | nil => rfl
  | cons event events ih =>
    rw [List.foldl_cons, ih]
    cases event with
    | label name symbol decimals => rfl
    | observed chain => cases hbinding : chain.binding <;> simp only [apply, mergeChainMetadata,
        hbinding, mergeExtension, mergeCooccurrence]

/-- **Metadata precedence.** What any sequence of labels and observations leaves in a row whose
source agrees with its fields and which no label wrote. In each field the last label or extension
value wins, then what was stored, then the first co-occurrence value; the bound values are the
last extension's, and labels do not touch them. The source is the label exactly when some label
stands, and it agrees with the fields. -/
theorem metadata_precedence (hsource : info.checkedMetadataSource = .ok source)
    (hlabel : source ≠ some .label) (events : List MetadataEvent) :
    events.foldl apply info = { info with
      name := settled (fun name _ _ => some name) (·.name) info.name events
      symbol := settled (fun _ symbol _ => some symbol) (·.symbol) info.symbol events
      decimals := settled (fun _ _ decimals => some decimals) (some ·.decimals.toNat)
        info.decimals events
      metadataSource :=
        if labelStands events then some .label else if events = [] then source else some .chain
      chainMetadata := settled (fun _ _ _ => none) some info.chainMetadata events } ∧
    (events.foldl apply info).checkedMetadataSource =
      .ok (events.foldl apply info).metadataSource := by
  have hrow := (checkedMetadataSource_foldl hsource hlabel events).1
  obtain ⟨hstored, -⟩ := checkedMetadataSource_eq_ok.mp hrow
  refine ⟨?_, hrow.trans (congrArg _ hstored.symm)⟩
  rw [foldl_apply_frame, hstored, ← @foldl_apply_eq_settled _ _ _ TokenInfo.name,
    ← @foldl_apply_eq_settled _ _ _ TokenInfo.symbol,
    ← @foldl_apply_eq_settled _ _ _ TokenInfo.decimals,
    ← @foldl_apply_eq_settled _ _ _ TokenInfo.chainMetadata]
  all_goals
    intro info event
    cases event with
    | label name symbol decimals => simp [apply, applyLabel, replaces, fills]
    | observed chain =>
      cases hbinding : chain.binding <;>
        simp [apply, mergeChainMetadata, hbinding, mergeExtension, mergeCooccurrence, replaces, fills]

/-- A first observation by co-occurrence, a label, and an extension binding without a symbol: the
label keeps the symbol, and the row is still the label's. -/
theorem metadata_precedence_label_symbol_kept :
    TokenInfo.checkedMetadataSource ⟨[1], 1, [2], "xudt", none, none, none, none, 5, none, none, 0,
        none, none⟩ = .ok none ∧
      [.observed ⟨some "heuristic", none, 2, .issuanceCooccurrence⟩, .label "Coin" "CN" 8,
        .observed ⟨some "Chain coin", none, 6, .xudtExtension⟩].foldl apply
          ⟨[1], 1, [2], "xudt", none, none, none, none, 5, none, none, 0, none, none⟩ =
        ⟨[1], 1, [2], "xudt", some "Chain coin", some "CN", some 6, none, 5, none, none, 0,
          some .label, some ⟨some "Chain coin", none, 6, .xudtExtension⟩⟩ :=
  ⟨by decide, (@metadata_precedence _ none (by decide) (by decide) _).1.trans (by decide)⟩

end TokenInfo

end Ckbadger.Store
