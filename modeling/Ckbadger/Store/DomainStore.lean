/-
Ckbadger.Store.DomainStore — the mutable domain store: its column families, the
batch operations the undo log replays by column-family name, and the routing of
per-entity statistics keys to their column family.
-/
import Ckbadger.Lib.OrderedStore

namespace Ckbadger.Store

open Lib

/-! ## Column families -/

/-- The column families of the domain store (`DOMAIN_CFS`). -/
inductive Cf where
  | liveCells | consumedCells | reorgUndoLogByBlock | blockHeaders | blockHashIndex
  | cellByLock | cellByType | cellByLockCode | cellByTypeCode | cellByDataHash | txIndex
  | txHashMap | addrBalance | addrTxs | daoDeposits | daoByWithdrawTx | daoByBlock
  | daoByLockBlock | daoByStatusBlock | tokens | tokenHolders | tokenHoldersByBalance
  | addrTokensByBalance | sporeData | mnftData | mnftByCollection | identityData
  | identityByCollection | statsChain | statsDao | statsHodl | statsScript | statsToken
  | statsSpore | statsMnft | statsIdentity | scriptInfo | scriptVersions
  | scriptVersionsByLabel | scriptFamilies | scriptVersionsByFamily | scriptReferenceInfo
  | scriptReferenceToVersion | scriptFamilyByName | syncMeta | sporeByCluster | tokenTransfers
  | txActions | clusterAgg | mnftCollectionAgg | objectCollectionActivities | identityAgg
  | identityCollectionActivities | pendingProposals | fiberChannels | fiberChannelByCommitment
  | addrFiberChannels | dobDecoded | lockScripts | addrTxsByPrefix | addrPrefixStats
  | dotcellNameByOwner | dotcellRing | txActionsByBucket | collectionActivityDaily | daoLiveAgg
  | objectCollectionActivityCount | bitCellByAccount
  deriving DecidableEq

namespace Cf

/-- `DOMAIN_CFS`, in the order the source lists it. -/
def all : List Cf :=
  [.liveCells, .consumedCells, .reorgUndoLogByBlock, .blockHeaders, .blockHashIndex,
   .cellByLock, .cellByType, .cellByLockCode, .cellByTypeCode, .cellByDataHash, .txIndex,
   .txHashMap, .addrBalance, .addrTxs, .daoDeposits, .daoByWithdrawTx, .daoByBlock,
   .daoByLockBlock, .daoByStatusBlock, .tokens, .tokenHolders, .tokenHoldersByBalance,
   .addrTokensByBalance, .sporeData, .mnftData, .mnftByCollection, .identityData,
   .identityByCollection, .statsChain, .statsDao, .statsHodl, .statsScript, .statsToken,
   .statsSpore, .statsMnft, .statsIdentity, .scriptInfo, .scriptVersions,
   .scriptVersionsByLabel, .scriptFamilies, .scriptVersionsByFamily, .scriptReferenceInfo,
   .scriptReferenceToVersion, .scriptFamilyByName, .syncMeta, .sporeByCluster, .tokenTransfers,
   .txActions, .clusterAgg, .mnftCollectionAgg, .objectCollectionActivities, .identityAgg,
   .identityCollectionActivities, .pendingProposals, .fiberChannels, .fiberChannelByCommitment,
   .addrFiberChannels, .dobDecoded, .lockScripts, .addrTxsByPrefix, .addrPrefixStats,
   .dotcellNameByOwner, .dotcellRing, .txActionsByBucket, .collectionActivityDaily,
   .daoLiveAgg, .objectCollectionActivityCount, .bitCellByAccount]

/-- The on-disk name of a column family. -/
def name : Cf → String
  | .liveCells => "live_cells"
  | .consumedCells => "consumed_cells"
  | .reorgUndoLogByBlock => "reorg_undo_log_by_block"
  | .blockHeaders => "block_headers"
  | .blockHashIndex => "block_hash_index"
  | .cellByLock => "cell_by_lock"
  | .cellByType => "cell_by_type"
  | .cellByLockCode => "cell_by_lock_code"
  | .cellByTypeCode => "cell_by_type_code"
  | .cellByDataHash => "cell_by_data_hash"
  | .txIndex => "tx_index"
  | .txHashMap => "tx_hash_map"
  | .addrBalance => "addr_balance"
  | .addrTxs => "addr_txs"
  | .daoDeposits => "dao_deposits"
  | .daoByWithdrawTx => "dao_by_withdraw_tx"
  | .daoByBlock => "dao_by_block"
  | .daoByLockBlock => "dao_by_lock_block"
  | .daoByStatusBlock => "dao_by_status_block"
  | .tokens => "tokens"
  | .tokenHolders => "token_holders"
  | .tokenHoldersByBalance => "token_holders_by_balance"
  | .addrTokensByBalance => "addr_tokens_by_balance"
  | .sporeData => "spore_data"
  | .mnftData => "mnft_data"
  | .mnftByCollection => "mnft_by_collection"
  | .identityData => "identity_data"
  | .identityByCollection => "identity_by_collection"
  | .statsChain => "stats_chain"
  | .statsDao => "stats_dao"
  | .statsHodl => "stats_hodl"
  | .statsScript => "stats_script"
  | .statsToken => "stats_token"
  | .statsSpore => "stats_spore"
  | .statsMnft => "stats_mnft"
  | .statsIdentity => "stats_identity"
  | .scriptInfo => "script_info"
  | .scriptVersions => "script_versions"
  | .scriptVersionsByLabel => "script_versions_by_label"
  | .scriptFamilies => "script_families"
  | .scriptVersionsByFamily => "script_versions_by_family"
  | .scriptReferenceInfo => "script_reference_info"
  | .scriptReferenceToVersion => "script_reference_to_version"
  | .scriptFamilyByName => "script_family_by_name"
  | .syncMeta => "sync_meta"
  | .sporeByCluster => "spore_by_cluster"
  | .tokenTransfers => "token_transfers"
  | .txActions => "activities"
  | .clusterAgg => "cluster_agg"
  | .mnftCollectionAgg => "mnft_collection_agg"
  | .objectCollectionActivities => "object_collection_activities"
  | .identityAgg => "identity_agg"
  | .identityCollectionActivities => "identity_collection_activities"
  | .pendingProposals => "pending_proposals"
  | .fiberChannels => "fiber_channels"
  | .fiberChannelByCommitment => "fiber_channel_by_commitment"
  | .addrFiberChannels => "addr_fiber_channels"
  | .dobDecoded => "dob_decoded"
  | .lockScripts => "lock_scripts"
  | .addrTxsByPrefix => "addr_txs_by_prefix"
  | .addrPrefixStats => "addr_prefix_stats"
  | .dotcellNameByOwner => "dotcell_name_by_owner"
  | .dotcellRing => "dotcell_ring"
  | .txActionsByBucket => "tx_actions_by_bucket"
  | .collectionActivityDaily => "collection_activity_daily"
  | .daoLiveAgg => "dao_live_agg"
  | .objectCollectionActivityCount => "object_collection_activity_count"
  | .bitCellByAccount => "bit_cell_by_account"

/-- The column family an on-disk name resolves to: `cf_allowed` and `cf_handle` in one, since
a domain store is opened with every family of `DOMAIN_CFS`. -/
def ofName? (cfName : String) : Option Cf := all.find? fun cf => cf.name == cfName

theorem name_of_ofName? {cfName : String} {cf : Cf} (h : ofName? cfName = some cf) :
    cf.name = cfName := by
  simpa using List.find?_some h

end Cf

/-- The domain store. -/
abbrev DomainStore := OrderedStore Cf

/-- A write batch of the domain store. -/
abbrev DomainBatch := WriteBatch Cf

/-! ## Errors -/

/-- The lowercase hexadecimal rendering of a byte string. -/
def bytesToHex (bs : Bytes) : String :=
  let digit (n : Nat) : Char := if n < 10 then Char.ofNat (48 + n) else Char.ofNat (87 + n)
  String.ofList (bs.flatMap fun b => [digit (b.toNat / 16), digit (b.toNat % 16)])

/-- The failures of the store's own operations. -/
inductive StoreError where
  | cfNotAllowed (cfName : String)
  | unsupportedStatsPrefix (byte : UInt8)
  | emptyStatsKey
  deriving DecidableEq

/-- The text each failure carries. -/
def StoreError.message : StoreError → String
  | .cfNotAllowed cfName => "CF '" ++ cfName ++ "' is not allowed in Domain store"
  | .unsupportedStatsPrefix byte => "unsupported stats prefix: 0x" ++ bytesToHex [byte]
  | .emptyStatsKey => "empty stats key"

/-! ## Operations addressed by column-family name -/

/-- Stages a put (`some`) or a delete (`none`) in the column family of that name. -/
def applyBatchOpByCfName (batch : DomainBatch) (cfName : String) (key : Bytes)
    (value : Option Bytes) : Except StoreError DomainBatch :=
  match Cf.ofName? cfName with
  | none => .error (.cfNotAllowed cfName)
  | some cf =>
    match value with
    | some v => .ok (batch ++ [.put cf key v])
    | none => .ok (batch ++ [.delete cf key])

/-! ## Statistics keys -/

/-- The first byte of a statistics key (`stats_prefix`). -/
inductive StatsPrefix where
  | daily | hourly | epoch | miner | blockTimeDist | epochTimeDist | dailyBlock
  | daoDailySnapshot | tokenTransfers | tokenHourly | hodlWave | clusterOwner | sporeHourly
  | objectHourly | scriptDaily | tokenDaily | clusterDaily | sporeDaily | sporeOutpoint
  | sporeTypeIndex | objectDaily | objectTypeIndex | mnftClassOutpoint | mnftTokenOutpoint
  | dotbitAccountOutpoint | sporeOutpointById | daoLatestStats | objectCollectionOwner
  | activityDaily | activityHourly | dotbitOutpointByAccountId | daoTopDepositors
  | cellDistribution | addrCohort | activityDailyAddrSet | activityHourlyAddrSet
  | dotbitUnindexedOutpoint
  deriving DecidableEq

namespace StatsPrefix

/-- Every prefix, in the order of their codes. -/
def all : List StatsPrefix :=
  [.daily, .hourly, .epoch, .miner, .blockTimeDist, .epochTimeDist, .dailyBlock,
   .daoDailySnapshot, .tokenTransfers, .tokenHourly, .hodlWave, .clusterOwner, .sporeHourly,
   .objectHourly, .scriptDaily, .tokenDaily, .clusterDaily, .sporeDaily, .sporeOutpoint,
   .sporeTypeIndex, .objectDaily, .objectTypeIndex, .mnftClassOutpoint, .mnftTokenOutpoint,
   .dotbitAccountOutpoint, .sporeOutpointById, .daoLatestStats, .objectCollectionOwner,
   .activityDaily, .activityHourly, .dotbitOutpointByAccountId, .daoTopDepositors,
   .cellDistribution, .addrCohort, .activityDailyAddrSet, .activityHourlyAddrSet,
   .dotbitUnindexedOutpoint]

/-- The prefix byte. -/
def code : StatsPrefix → UInt8
  | .daily => 0x01
  | .hourly => 0x02
  | .epoch => 0x03
  | .miner => 0x04
  | .blockTimeDist => 0x05
  | .epochTimeDist => 0x06
  | .dailyBlock => 0x07
  | .daoDailySnapshot => 0x08
  | .tokenTransfers => 0x09
  | .tokenHourly => 0x0A
  | .hodlWave => 0x0B
  | .clusterOwner => 0x0C
  | .sporeHourly => 0x0D
  | .objectHourly => 0x0E
  | .scriptDaily => 0x0F
  | .tokenDaily => 0x10
  | .clusterDaily => 0x11
  | .sporeDaily => 0x12
  | .sporeOutpoint => 0x13
  | .sporeTypeIndex => 0x14
  | .objectDaily => 0x15
  | .objectTypeIndex => 0x16
  | .mnftClassOutpoint => 0x17
  | .mnftTokenOutpoint => 0x18
  | .dotbitAccountOutpoint => 0x19
  | .sporeOutpointById => 0x1A
  | .daoLatestStats => 0x1B
  | .objectCollectionOwner => 0x1C
  | .activityDaily => 0x1D
  | .activityHourly => 0x1E
  | .dotbitOutpointByAccountId => 0x1F
  | .daoTopDepositors => 0x20
  | .cellDistribution => 0x21
  | .addrCohort => 0x22
  | .activityDailyAddrSet => 0x23
  | .activityHourlyAddrSet => 0x24
  | .dotbitUnindexedOutpoint => 0x25

/-- The prefix a byte names, if any. -/
def ofCode? (byte : UInt8) : Option StatsPrefix := all.find? fun p => p.code == byte

/-- The column family that holds the keys of a prefix: the arms of `stats_cf_by_prefix`. -/
def cf : StatsPrefix → Cf
  | .daily | .hourly | .epoch | .miner | .blockTimeDist | .epochTimeDist | .dailyBlock
  | .activityDaily | .activityHourly | .activityDailyAddrSet | .activityHourlyAddrSet =>
    .statsChain
  | .daoDailySnapshot | .daoLatestStats | .daoTopDepositors =>
    .statsDao
  | .hodlWave | .cellDistribution | .addrCohort =>
    .statsHodl
  | .scriptDaily =>
    .statsScript
  | .tokenTransfers | .tokenHourly | .tokenDaily =>
    .statsToken
  | .clusterOwner | .sporeHourly | .clusterDaily | .sporeDaily | .sporeOutpoint
  | .sporeTypeIndex | .sporeOutpointById =>
    .statsSpore
  | .objectHourly | .objectDaily | .objectTypeIndex | .mnftClassOutpoint | .mnftTokenOutpoint
  | .dotbitAccountOutpoint | .dotbitOutpointByAccountId | .dotbitUnindexedOutpoint
  | .objectCollectionOwner =>
    .statsMnft

/-- The arms of `stats_cf_name_by_prefix`, a second table over the same prefixes. -/
def cfName : StatsPrefix → String
  | .daily | .hourly | .epoch | .miner | .blockTimeDist | .epochTimeDist | .dailyBlock
  | .activityDaily | .activityHourly | .activityDailyAddrSet | .activityHourlyAddrSet =>
    Cf.statsChain.name
  | .daoDailySnapshot | .daoLatestStats | .daoTopDepositors =>
    Cf.statsDao.name
  | .hodlWave | .cellDistribution | .addrCohort =>
    Cf.statsHodl.name
  | .scriptDaily =>
    Cf.statsScript.name
  | .tokenTransfers | .tokenHourly | .tokenDaily =>
    Cf.statsToken.name
  | .clusterOwner | .sporeHourly | .clusterDaily | .sporeDaily | .sporeOutpoint
  | .sporeTypeIndex | .sporeOutpointById =>
    Cf.statsSpore.name
  | .objectHourly | .objectDaily | .objectTypeIndex | .mnftClassOutpoint | .mnftTokenOutpoint
  | .dotbitAccountOutpoint | .dotbitOutpointByAccountId | .dotbitUnindexedOutpoint
  | .objectCollectionOwner =>
    Cf.statsMnft.name

/-- The two tables agree, so a pre-image recorded by name is restored where it was read. -/
theorem cfName_eq (p : StatsPrefix) : p.cfName = p.cf.name := by
  cases p <;> rfl

/-- The name a statistics pre-image carries resolves to the column family it was read from. -/
theorem ofName?_cf_name (p : StatsPrefix) : Cf.ofName? p.cf.name = some p.cf := by
  have hresolve : ∀ cf ∈ [Cf.statsChain, .statsDao, .statsHodl, .statsScript, .statsToken,
      .statsSpore, .statsMnft], Cf.ofName? cf.name = some cf := by decide +kernel
  exact hresolve p.cf (by cases p <;> decide)

theorem cf_ne_undoLog (p : StatsPrefix) : p.cf ≠ .reorgUndoLogByBlock := by
  cases p <;> decide

theorem cf_ne_syncMeta (p : StatsPrefix) : p.cf ≠ .syncMeta := by
  cases p <;> decide

end StatsPrefix

/-- Resolves the statistics column family of a prefix byte. -/
def statsCfByPrefix (byte : UInt8) : Except StoreError Cf :=
  match StatsPrefix.ofCode? byte with
  | some p => .ok p.cf
  | none => .error (.unsupportedStatsPrefix byte)

/-- Resolves the **name** of that column family, which is what an undo entry carries. -/
def statsCfNameByPrefix (byte : UInt8) : Except StoreError String :=
  match StatsPrefix.ofCode? byte with
  | some p => .ok p.cfName
  | none => .error (.unsupportedStatsPrefix byte)

/-- The statistics column family of a whole key. -/
def cfForStatsKey : Bytes → Except StoreError Cf
  | [] => .error .emptyStatsKey
  | byte :: _ => statsCfByPrefix byte

/-- Reads a statistics row. -/
def getStatsKey (s : DomainStore) (key : Bytes) : Except StoreError (Option Bytes) := do
  let cf ← cfForStatsKey key
  return s.get cf key

end Ckbadger.Store
