import Huntercore.Lib.OrdMap
import Huntercore.Lib.Control
import Huntercore.Game.Common
import Huntercore.Game.State
import Huntercore.Game.Character
import Huntercore.Game.Loot
import Huntercore.Game.Move
import Huntercore.Game.Attacks
import Huntercore.Game.Kills
import Huntercore.Game.Step
import Huntercore.Game.MinerTax
import Huntercore.Game.Simultaneity
import Huntercore.Game.Invariant.Basic
import Huntercore.Game.Invariant.Kills
import Huntercore.Game.Invariant.Moves
import Huntercore.Game.Invariant.Phases
import Huntercore.Game.Invariant.Division
import Huntercore.Game.Invariant.Step
import Huntercore.Game.Treasure
import Huntercore.Lib.Overlay
import Huntercore.Names.Common
import Huntercore.Names.Script
import Huntercore.Univalue.UniValue
import Huntercore.Game.MoveParse
import Huntercore.Lib.ShareOut
import Huntercore.Game.LootShares
import Huntercore.Game.LifeSteal
import Huntercore.Game.Banks
import Huntercore.Consensus.Pow
import Huntercore.Lib.Merge
import Huntercore.Names.Iterator
import Huntercore.Lib.MerkleTree
import Huntercore.Consensus.Merkle
import Huntercore.Lib.Chain
import Huntercore.Game.Line
import Huntercore.Game.PathFinding
import Huntercore.Game.Route
import Huntercore.Game.Db
import Huntercore.Coins.Cache
import Huntercore.Coins.Tx
import Huntercore.Coins.Undo
import Huntercore.Coins.Serialize
