import GameServer.Battle.Turns
import GameServer.Server.MsgBlocks
import GameServer.Server.GlobalObject
import GameServer.Common.Cursor
import GameServer.Common.Fields
import GameServer.Common.Framing
import GameServer.Common.Stream
import GameServer.Common.Confined
import GameServer.Common.Serialize
import GameServer.Library.Bytes
import GameServer.Network.Upstream
import GameServer.Network.Lookup
import GameServer.Library.Walk
import GameServer.Network.Requests
import GameServer.Network.Master
import GameServer.Network.FreeSlots
import GameServer.Network.Worker
import GameServer.Battle.Records
import GameServer.Battle.Rounds
import GameServer.Battle.Places
import GameServer.Battle.Choices
import GameServer.Battle.BattleGround
import GameServer.Battle.Walk
import GameServer.Battle.Numbering
import GameServer.Battle.Counters
import GameServer.Battle.Aim
import GameServer.Battle.Target
import GameServer.Battle.Shortest
import GameServer.Battle.Hex
import GameServer.Battle.Reach
import GameServer.Battle.Route
import GameServer.Library.BestFirst
import GameServer.Common.FiniteMap
import GameServer.Network.SlotTable
import GameServer.GObject.Map
import GameServer.GObject.PvpRank
import GameServer.GObject.ClanBattle
import GameServer.GObject.PetItems
import GameServer.GObject.PetEquips
import GameServer.GObject.PetOwner
import GameServer.GObject.PetGems
import GameServer.Common.StringTokenizer
import GameServer.GObject.PetUpgrade
import GameServer.GObject.UpPetEquip
import GameServer.GObject.Dreamer
import GameServer.MsgHandler.Conservation
import GameServer.GObject.GLocalObjectManager
import GameServer.GData.ObjectManager
import GameServer.Library.Counted
import GameServer.MsgHandler.CountedPackets
import GameServer.Common.Zip
import GameServer.Scripts.EquipAbout
import GameServer.Scripts.LuckyDraw
import GameServer.Scripts.ModelBuffs
import GameServer.Scripts.Athletics
import GameServer.Scripts.BoxRoom
import GameServer.Scripts.BatchUse
import GameServer.Library.HexGrid
import GameServer.Battle.Range
import GameServer.Battle.Nearby
import GameServer.Library.Sorting
import GameServer.Battle.Fit
import GameServer.Battle.RouteSafety
import GameServer.Battle.Destination
import GameServer.Battle.Revival
import GameServer.Library.Objects
import GameServer.Server.WorkerRunner
import GameServer.Server.Timers
import GameServer.Server.Shutdown
import GameServer.Battle.Scan
import GameServer.Library.RoundRobin
import GameServer.Battle.Bench
import GameServer.Network.Refusal
import GameServer.Common.ListRuns
import GameServer.Common.Tombstones
import GameServer.Common.EntryCount
import GameServer.Common.Indexing
import GameServer.Common.ListLocks
import GameServer.Common.Sizes
import GameServer.GObject.ItemData
import GameServer.GObject.ItemBlocks
import GameServer.JsonProxy.JsonProxy
import GameServer.GObject.PetItemRecords
import GameServer.GObject.UpgradeRounds
import GameServer.GObject.MapObjects
import GameServer.GObject.PvpAward
import GameServer.Common.SharpDay
import GameServer.Library.Calendar
import GameServer.Common.TimeUtil
import GameServer.Common.Itoa
import GameServer.Library.Tables
import GameServer.Library.Quotas
import GameServer.Scripts.ParseMapInfo
import GameServer.Scripts.StrengthenMgr
import GameServer.JsonProxy.Segments
import GameServer.Server.WorldServer
import GameServer.Scripts.DayTask
import GameServer.Common.MkTime
import GameServer.Common.SharpMonth
import GameServer.Common.Adler
import GameServer.Common.Sha1Calls
import GameServer.Common.RandomRuns
import GameServer.Common.Event
import GameServer.Common.PathTexts
import GameServer.Battle.ArenaPlaces
import GameServer.Scripts.LaunchBattle
import GameServer.Scripts.Store
import GameServer.GData.SkillEffect
import GameServer.Scripts.AutoRegen
import GameServer.Battle.Reads
import GameServer.Battle.RideTable
import GameServer.Common.ThreadImpl
import GameServer.Common.ThreadRuns
