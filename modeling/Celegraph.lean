import Celegraph.Chat.Delivery
import Celegraph.Client.Agreement
import Celegraph.Client.Matching
import Celegraph.Client.Waiting
import Celegraph.Database.Accounts
import Celegraph.Database.Users
import Celegraph.Queue.Sections
import Celegraph.Queue.Settling
import Celegraph.Server.Crash
import Celegraph.Server.Delivery
import Celegraph.Server.Echo
import Celegraph.Server.Gate
import Celegraph.Server.Oversize
import Celegraph.Server.Uninit
import Celegraph.Sessions.Issued
import Celegraph.Sessions.Teardown
import Celegraph.Sessions.Traffic
import Celegraph.SizeCheck
import Celegraph.Threads.Outgoing
import Celegraph.Threads.Progress
