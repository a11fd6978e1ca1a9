import IceBridge.Lib.Run
import IceBridge.Lib.Index
import IceBridge.Router.Requests
import IceBridge.Router.Pointers
import IceBridge.Router.Cursor
import IceBridge.Workers.ReplyTo
import IceBridge.Army.Catchup
import IceBridge.Army.Isolation
import IceBridge.Gateway.Broadcast
import IceBridge.Gateway.Handover
import IceBridge.Gateway.Places
import IceBridge.Gateway.Reading
import IceBridge.Gateway.TCPIOThreadManager
import IceBridge.Eddy.TCPSession
import IceBridge.Gateway.Overwrite
import IceBridge.Gateway.Deadline
import IceBridge.Worldmap.Cities
import IceBridge.Group.Owner
import IceBridge.Group.Unpacker
import IceBridge.Pvp.Messages
import IceBridge.Eddy.Outgoing
import IceBridge.Eddy.Delivery
import IceBridge.Eddy.NetMessage
import IceBridge.Eddy.Storage
import IceBridge.Workers.Forward
import IceBridge.Lib.Window
import IceBridge.Router.Watched
import IceBridge.Router.Turns
import IceBridge.Router.Disconnected
import IceBridge.Router.Faults
import IceBridge.Workers.Sender
import IceBridge.Gateway.ChatSlots
import IceBridge.Gateway.BuildNum
import IceBridge.Gateway.LoginWorker
import IceBridge.Gateway.Services
import IceBridge.Gateway.Heroes
import IceBridge.Gateway.Indices
import IceBridge.Gateway.Refusals
import IceBridge.Gateway.BeforeLogin
import IceBridge.Army.Paid
import IceBridge.Army.Refund
import IceBridge.Army.Expiry
import IceBridge.Pvp.Settlement
import IceBridge.Group.Admission
import IceBridge.Gateway.Market
import IceBridge.Gateway.Purchase
import IceBridge.Gateway.MarketPass
import IceBridge.Gateway.HeartCheck
import IceBridge.Army.Roster
import IceBridge.Army.Population
import IceBridge.Army.Soldiers
import IceBridge.Army.Pending
import IceBridge.Army.Reload
import IceBridge.Army.Completion
import IceBridge.Army.Unlock
import IceBridge.Pvp.Stars
import IceBridge.Worldmap.Update
import IceBridge.Lib.Rotation
import IceBridge.Router.Fairness
import IceBridge.Router.Reserved
import IceBridge.Lib.Once
import IceBridge.Worldmap.Visitors
import IceBridge.Worldmap.Nearby
import IceBridge.Gateway.SessionFilter
import IceBridge.Gateway.Oversized
import IceBridge.Gateway.Frames
import IceBridge.Workers.Bodies
import IceBridge.Workers.Replies
import IceBridge.Eddy.Editing
import IceBridge.Worldmap.RandomData
import IceBridge.Gateway.Nicknames
import IceBridge.Gateway.ConfigBuffer
import IceBridge.Gateway.Dismissal
import IceBridge.Gateway.HeroStats
import IceBridge.Gateway.Arms
import IceBridge.Gateway.Production
import IceBridge.Lib.Postbox
import IceBridge.Lib.Quarantine
import IceBridge.Gateway.SessionThreads
import IceBridge.Gateway.Directory
import IceBridge.Gateway.SessionNames
import IceBridge.Gateway.SessionRouting
import IceBridge.Gateway.Recycled
import IceBridge.Gateway.Mdcli
import IceBridge.Gateway.SendRequests
import IceBridge.Lib.Pulse
import IceBridge.Pvp.Timer
import IceBridge.Pvp.MainLoop
import IceBridge.Gateway.Draining
import IceBridge.Lib.Redis
import IceBridge.Gateway.RedisChatWorker
import IceBridge.Gateway.RedisRecords
import IceBridge.Gateway.RedisLoad
import IceBridge.Gateway.RedisEmails
import IceBridge.Lib.Heartbeat
import IceBridge.Workers.Heartbeats
import IceBridge.Workers.InTime
import IceBridge.Store.MysqlBase
import IceBridge.Gateway.ChatMessages
